import TaintScan.Proofs.Schema.Lookup

namespace TaintScan

inductive SchemaPlace
  | elementType (type : Nat)
  | attributeDecl (type attr : Nat)
  | childReference (type child : Nat)
  | rootReference (root : Nat)
  | function (function : Nat)
  | parameter (parameter : Nat)
deriving DecidableEq

namespace Schema

variable {s : Schema}

def at? (s : Schema) : SchemaPlace → Option SchemaObject
  | .elementType i => s.elementTypes[i]?.map .elementType
  | .attributeDecl i j => s.elementTypes[i]?.bind fun t => t.attributes[j]?.map (.attributeDecl t)
  | .childReference i j => s.elementTypes[i]?.bind fun t => t.elements[j]?.map .elementReference
  | .rootReference i => s.rootElements[i]?.map .elementReference
  | .function i => s.functions[i]?.map .function
  | .parameter i => s.parameters[i]?.map .parameter

def entriesOf (i : Nat) (t : ElementType) : List (ObjectId × SchemaPlace) :=
  (t.id, .elementType i) :: t.attributes.mapIdx (fun j a => (a.id, .attributeDecl i j)) ++
    t.elements.mapIdx fun j r => (r.id, .childReference i j)

/-- The identities of a schema with their places, in the order they are entered. -/
def index (s : Schema) : List (ObjectId × SchemaPlace) :=
  (s.elementTypes.mapIdx entriesOf).flatten ++
    s.rootElements.mapIdx (fun i r => (r.id, .rootReference i)) ++
    s.functions.mapIdx (fun i f => (f.id, .function i)) ++
    s.parameters.mapIdx fun i p => (p.id, .parameter i)

def LeadsTo (s : Schema) (entry : ObjectId × SchemaPlace) (o : SchemaObject) : Prop :=
  entry.1 = o.id ∧ s.at? entry.2 = some o

theorem forall₂_mapIdx {α β γ : Type} {R : β → γ → Prop} {f : Nat → α → β} {g : α → γ} {as : List α}
    (h : ∀ i a, as[i]? = some a → R (f i a) (g a)) : List.Forall₂ R (as.mapIdx f) (as.map g) := by
  refine List.forall₂_iff_get.mpr ⟨by simp, fun i inside _ => ?_⟩
  have known : i < as.length := by simpa using inside
  simpa using h i as[i] (List.getElem?_eq_getElem known)

theorem entriesOf_leadTo {i : Nat} {t : ElementType} (known : s.elementTypes[i]? = some t) :
    List.Forall₂ s.LeadsTo (entriesOf i t) (objectsOf t) := by
  have attributes : List.Forall₂ s.LeadsTo
      (t.attributes.mapIdx fun j a => (a.id, .attributeDecl i j))
      (t.attributes.map (.attributeDecl t)) :=
    forall₂_mapIdx fun j a inside => ⟨rfl, by simp [at?, known, inside]⟩
  have children : List.Forall₂ s.LeadsTo
      (t.elements.mapIdx fun j r => (r.id, .childReference i j))
      (t.elements.map .elementReference) :=
    forall₂_mapIdx fun j r inside => ⟨rfl, by simp [at?, known, inside]⟩
  exact .cons ⟨rfl, by simp [at?, known]⟩ (List.rel_append attributes children)

theorem index_leadTo (s : Schema) : List.Forall₂ s.LeadsTo s.index s.objects := by
  have types : List.Forall₂ s.LeadsTo (s.elementTypes.mapIdx entriesOf).flatten
      (s.elementTypes.flatMap objectsOf) := by
    rw [List.flatMap_def]
    exact List.rel_flatten (forall₂_mapIdx fun i t known => entriesOf_leadTo known)
  have roots : List.Forall₂ s.LeadsTo (s.rootElements.mapIdx fun i r => (r.id, .rootReference i))
      (s.rootElements.map .elementReference) :=
    forall₂_mapIdx fun i r inside => ⟨rfl, by simp [at?, inside]⟩
  have functions : List.Forall₂ s.LeadsTo (s.functions.mapIdx fun i f => (f.id, .function i))
      (s.functions.map .function) :=
    forall₂_mapIdx fun i f inside => ⟨rfl, by simp [at?, inside]⟩
  have parameters : List.Forall₂ s.LeadsTo (s.parameters.mapIdx fun i p => (p.id, .parameter i))
      (s.parameters.map .parameter) :=
    forall₂_mapIdx fun i p inside => ⟨rfl, by simp [at?, inside]⟩
  exact List.rel_append (List.rel_append (List.rel_append types roots) functions) parameters

theorem lookup_leadTo {entries : List (ObjectId × SchemaPlace)} {objects : List SchemaObject}
    (h : List.Forall₂ s.LeadsTo entries objects) (id : ObjectId) :
    (entries.lookup id).map s.at? = (objects.find? fun o => o.id == id).map some := by
  induction h with
  | nil => rfl
  | @cons entry o _ _ leads _ ih =>
    obtain ⟨key, place⟩ := entry
    obtain ⟨same, there⟩ := leads
    obtain rfl : key = o.id := same
    by_cases wanted : o.id = id
    · simp [← wanted, there]
    · have other : (id == o.id) = false := beq_eq_false_iff_ne.mpr fun h => wanted h.symm
      rw [List.lookup_cons, other, List.find?_cons_of_neg (by simpa using wanted)]
      exact ih

theorem object_eq_lookup (s : Schema) (distinct : (s.objects.map SchemaObject.id).Nodup)
    (id : ObjectId) :
    (s.index.lookup id = none ∧ s.object id = .error (.unknownObject id)) ∨
      ∃ place o, s.index.lookup id = some place ∧ s.at? place = some o ∧ s.object id = .ok o := by
  have same := lookup_leadTo s.index_leadTo id
  rw [object_of_distinct distinct]
  cases found : s.objects.find? fun o => o.id == id with
  | none =>
    rw [found] at same
    exact .inl ⟨Option.map_eq_none_iff.mp same, rfl⟩
  | some o =>
    rw [found] at same
    obtain ⟨place, listed, there⟩ := Option.map_eq_some_iff.mp same
    exact .inr ⟨place, o, listed, there, rfl⟩

end Schema

end TaintScan
