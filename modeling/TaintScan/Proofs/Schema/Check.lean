import TaintScan.Proofs.Schema.Index

namespace TaintScan.Schema

variable {s : Schema}

def identitiesOf (t : ElementType) : List ObjectId :=
  t.id :: t.attributes.map AttributeDecl.id ++ t.elements.map ElementReference.id

/-- The identities of element types with their attributes and children, of roots, functions and
parameters. -/
def identities (s : Schema) : List ObjectId :=
  s.elementTypes.flatMap identitiesOf ++ s.rootElements.map ElementReference.id ++
    s.functions.map FunctionDecl.id ++ s.parameters.map ParameterDecl.id

structure WellFormed (s : Schema) : Prop where
  distinct : s.identities.Nodup
  linked : ∀ r ∈ s.references, ∃ t ∈ s.elementTypes, t.id = r.elementType
  referenceNames : ∀ r ∈ s.references, Name.isQualified r.name.toList = true
  attributeNames : ∀ t ∈ s.elementTypes, ∀ a ∈ t.attributes, Name.isQualified a.name.toList = true

theorem ids_objects (s : Schema) : s.objects.map SchemaObject.id = s.identities := by
  have own (t : ElementType) : (objectsOf t).map SchemaObject.id = identitiesOf t := by
    simp only [objectsOf, identitiesOf, List.map_cons, List.map_append, List.map_map]
    rfl
  simp only [objects, identities, List.map_append, List.map_flatMap, List.map_map, own]
  rfl

theorem checkIds_eq_ok : s.checkIds = .ok () ↔ s.identities.Nodup := by
  rw [checkIds_iff_nodup, ids_objects]

theorem checkReference_eq_ok {r : ElementReference} : s.checkReference r = .ok () ↔
    Name.isQualified r.name.toList = true ∧ ∃ t, s.referencedType r = .ok t := by
  unfold checkReference
  by_cases named : Name.isQualified r.name.toList = true
  · rw [if_pos named, Outcome.map_eq_ok]
    exact ⟨fun ⟨t, found, _⟩ => ⟨named, t, found⟩, fun ⟨_, t, found⟩ => ⟨t, found, rfl⟩⟩
  · rw [if_neg named]
    exact ⟨nofun, fun h => absurd h.1 named⟩

theorem checkAttribute_eq_ok {owner : ElementType} {a : AttributeDecl} :
    checkAttribute owner a = .ok () ↔ Name.isQualified a.name.toList = true := by
  unfold checkAttribute
  by_cases named : Name.isQualified a.name.toList = true
  · simp [named]
  · simp [named]

theorem referencedType_iff (distinct : s.identities.Nodup) {r : ElementReference} {t : ElementType} :
    s.referencedType r = .ok t ↔ t ∈ s.elementTypes ∧ t.id = r.elementType := by
  constructor
  · exact fun found => mem_of_elementType found
  · rintro ⟨member, same⟩
    rw [← ids_objects] at distinct
    have listed : SchemaObject.elementType t ∈ s.objects :=
      mem_objects.mpr (.inl ⟨t, member, .inl rfl⟩)
    have found := object_of_mem distinct listed
    rw [referencedType, ← same]
    exact elementType_eq_ok.mpr found

theorem check_eq_ok : s.check = .ok () ↔ s.WellFormed := by
  simp only [check, Outcome.bind_eq_ok]
  constructor
  · rintro ⟨⟨⟩, ids, ⟨⟩, references, attributes⟩
    have distinct := checkIds_eq_ok.mp ids
    have fine := fun r member => checkReference_eq_ok.mp (Outcome.forM_eq_ok.mp references r member)
    refine ⟨distinct, fun r member => ?_, fun r member => (fine r member).1, fun t there a declared => ?_⟩
    · obtain ⟨t, found⟩ := (fine r member).2
      exact ⟨t, (referencedType_iff distinct).mp found⟩
    · have named := Outcome.forM_eq_ok.mp (Outcome.forM_eq_ok.mp attributes t there) a declared
      exact checkAttribute_eq_ok.mp named
  · rintro ⟨distinct, linked, references, attributes⟩
    refine ⟨⟨⟩, checkIds_eq_ok.mpr distinct, ⟨⟩, Outcome.forM_eq_ok.mpr fun r member => ?_,
      Outcome.forM_eq_ok.mpr fun t there => Outcome.forM_eq_ok.mpr fun a declared => ?_⟩
    · obtain ⟨t, there, same⟩ := linked r member
      exact checkReference_eq_ok.mpr
        ⟨references r member, t, (referencedType_iff distinct).mpr ⟨there, same⟩⟩
    · exact checkAttribute_eq_ok.mpr (attributes t there a declared)

/-- What looking up an identity answers to someone who wants an object of a kind, of which `carries`
tells what it is. -/
structure Finds {α : Type} (s : Schema) (id : ObjectId) (expected : ObjectKind)
    (carries : α → SchemaObject → Prop) (answer : Except Error α) : Prop where
  fits : ∀ o ∈ s.objects, o.id = id → o.kind = expected → ∃ a, carries a o ∧ answer = .ok a
  other : ∀ o ∈ s.objects, o.id = id → o.kind ≠ expected →
    answer = .error (.wrongKind id o.kind expected)
  unknown : (∀ o ∈ s.objects, o.id ≠ id) → answer = .error (.unknownObject id)

theorem object_of_absent (distinct : (s.objects.map SchemaObject.id).Nodup) {id : ObjectId}
    (absent : ∀ o ∈ s.objects, o.id ≠ id) : s.object id = .error (.unknownObject id) := by
  have none : (s.objects.find? fun o => o.id == id) = none :=
    List.find?_eq_none.mpr fun o member => by simpa using absent o member
  rw [object_of_distinct distinct, none]

theorem ofKind_finds {α : Type} (distinct : s.identities.Nodup) (id : ObjectId)
    {expected : ObjectKind} {select : SchemaObject → Option α} {carries : α → SchemaObject → Prop}
    (selects : ∀ o, (o.kind = expected ∧ ∃ a, select o = some a ∧ carries a o) ∨
      (o.kind ≠ expected ∧ select o = none)) :
    s.Finds id expected carries (s.ofKind id expected select) := by
  rw [← ids_objects] at distinct
  refine ⟨fun o member same fits => ?_, fun o member same unfit => ?_, fun absent => ?_⟩
  · rcases selects o with ⟨-, a, chosen, carried⟩ | ⟨unfit, -⟩
    · refine ⟨a, carried, ?_⟩
      rw [ofKind, ← same, object_of_mem distinct member]
      simp only [chosen]
    · exact absurd fits unfit
  · rcases selects o with ⟨fits, -⟩ | ⟨-, refused⟩
    · exact absurd fits unfit
    · rw [ofKind, ← same, object_of_mem distinct member]
      simp only [refused]
  · rw [ofKind, object_of_absent distinct absent]

/-- Everything that looking up one identity answers. -/
structure Resolves (s : Schema) (id : ObjectId) : Prop where
  object : ∀ o ∈ s.objects, o.id = id → s.object id = .ok o
  unknown : (∀ o ∈ s.objects, o.id ≠ id) → s.object id = .error (.unknownObject id)
  indexed : (s.index.lookup id = none ∧ s.object id = .error (.unknownObject id)) ∨
    ∃ place o, s.index.lookup id = some place ∧ s.at? place = some o ∧ s.object id = .ok o
  elementType : s.Finds id .elementType (fun t o => o = .elementType t) (s.elementType id)
  attributeDecl : s.Finds id .attributeDecl (fun a o => ∃ owner, o = .attributeDecl owner a)
    (s.attributeDecl id)
  elementReference : s.Finds id .elementReference (fun r o => o = .elementReference r)
    (s.elementReference id)
  function : s.Finds id .function (fun f o => o = .function f) (s.function id)
  parameter : s.Finds id .parameter (fun p o => o = .parameter p) (s.parameter id)

theorem resolves_of_distinct (distinct : s.identities.Nodup) (id : ObjectId) : s.Resolves id where
  object o member same := same ▸ object_of_mem (s.ids_objects ▸ distinct) member
  unknown := object_of_absent (s.ids_objects ▸ distinct)
  indexed := s.object_eq_lookup (s.ids_objects ▸ distinct) id
  elementType := ofKind_finds distinct id fun o => by cases o <;> simp [SchemaObject.kind]
  attributeDecl := ofKind_finds distinct id fun o => by cases o <;> simp [SchemaObject.kind]
  elementReference := ofKind_finds distinct id fun o => by cases o <;> simp [SchemaObject.kind]
  function := ofKind_finds distinct id fun o => by cases o <;> simp [SchemaObject.kind]
  parameter := ofKind_finds distinct id fun o => by cases o <;> simp [SchemaObject.kind]

/-- The check passes exactly well-formed schemas, and in them each identity is resolved to the object
that carries it, and each reference to its element type. -/
theorem check_resolves (s : Schema) : (s.check = .ok () ↔ s.WellFormed) ∧
    (s.check = .ok () → (∀ id, s.Resolves id) ∧
      ∀ r ∈ s.references, ∃ t ∈ s.elementTypes, t.id = r.elementType ∧ s.referencedType r = .ok t) := by
  refine ⟨check_eq_ok, fun checked => ?_⟩
  have formed := check_eq_ok.mp checked
  refine ⟨resolves_of_distinct formed.distinct, fun r member => ?_⟩
  obtain ⟨t, there, same⟩ := formed.linked r member
  exact ⟨t, there, same, (referencedType_iff formed.distinct).mpr ⟨there, same⟩⟩

def nestingType : ElementType :=
  ((ElementType.mixed ⟨⟨1⟩⟩ "part").withChild (.exactlyOnce ⟨⟨2⟩⟩ "x:part" ⟨⟨1⟩⟩)).withAttribute
    (.mandatory ⟨⟨3⟩⟩ "name" .anyText)

def nestingSchema : Schema where
  stylesheet := "part.xsl"
  version := 1
  elementTypes := [nestingType]
  rootElements := [nestingType.reference ⟨⟨4⟩⟩ "part"]
  functions := [⟨⟨⟨5⟩⟩, .plain "now", [], .one .string⟩]
  parameters := [⟨⟨⟨6⟩⟩, .plain "depth", .one .integer⟩]

theorem check_resolves_nesting : nestingSchema.WellFormed ∧ (∀ id, nestingSchema.Resolves id) ∧
    ∀ r ∈ nestingSchema.references, ∃ t ∈ nestingSchema.elementTypes,
      t.id = r.elementType ∧ nestingSchema.referencedType r = .ok t := by
  have checked : nestingSchema.check = .ok () := rfl
  exact ⟨(check_resolves nestingSchema).1.mp checked, (check_resolves nestingSchema).2 checked⟩

end TaintScan.Schema
