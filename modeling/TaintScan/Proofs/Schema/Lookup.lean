import Mathlib.Data.List.Nodup
import TaintScan.Proofs.Outcome
import TaintScan.Schema.Object

namespace TaintScan.Schema

variable {s : Schema}

theorem firstRepeated_eq_none {seen ids : List ObjectId} :
    firstRepeated seen ids = none ↔ ids.Nodup ∧ ∀ id ∈ ids, id ∉ seen := by
  induction ids generalizing seen with
  | nil => simp [firstRepeated]
  | cons id rest ih =>
    by_cases known : id ∈ seen
    · simp [firstRepeated, known]
    · simp only [firstRepeated, List.contains_iff_mem, known, if_false, ih, List.nodup_cons]
      constructor
      · rintro ⟨distinct, fresh⟩
        have unseen : ∀ other ∈ rest, other ∉ seen :=
          fun other member inside => fresh other member (List.mem_cons_of_mem _ inside)
        exact ⟨⟨fun again => fresh id again (by simp), distinct⟩,
          List.forall_mem_cons.mpr ⟨known, unseen⟩⟩
      · rintro ⟨⟨unique, distinct⟩, fresh⟩
        refine ⟨distinct, fun other member inside => ?_⟩
        rcases List.mem_cons.mp inside with rfl | inside
        · exact unique member
        · exact fresh other (List.mem_cons_of_mem _ member) inside

theorem checkIds_iff_nodup : s.checkIds = .ok () ↔ (s.objects.map SchemaObject.id).Nodup := by
  have none : firstRepeated [] (s.objects.map SchemaObject.id) = none ↔
      (s.objects.map SchemaObject.id).Nodup := by
    simp [firstRepeated_eq_none]
  rw [checkIds, ← none]
  cases firstRepeated [] (s.objects.map SchemaObject.id) <;> simp

/-- What looking up objects relies on: distinct identities and references that lead somewhere. -/
structure Sound (s : Schema) : Prop where
  distinct : (s.objects.map SchemaObject.id).Nodup
  linked : ∀ r ∈ s.references, ∃ t, s.referencedType r = .ok t

theorem sound_of_check (h : s.check = .ok ()) : s.Sound := by
  simp only [check, Outcome.bind_eq_ok] at h
  obtain ⟨_, ids, _, references, -⟩ := h
  constructor
  · exact checkIds_iff_nodup.mp ids
  · intro r member
    have fine := Outcome.forM_eq_ok.mp references r member
    simp only [checkReference] at fine
    split at fine
    · obtain ⟨t, found, -⟩ := Outcome.map_eq_ok.mp fine
      exact ⟨t, found⟩
    · cases fine

theorem object_eq_ok {id : ObjectId} {o : SchemaObject} (h : s.object id = .ok o) :
    o ∈ s.objects ∧ o.id = id := by
  rw [object] at h
  cases ids : s.checkIds with
  | error e =>
    rw [ids] at h
    cases h
  | ok _ =>
    rw [ids] at h
    cases found : s.objects.find? fun o => o.id == id with
    | none => simp [found] at h
    | some other =>
      obtain rfl : other = o := by simpa [found] using h
      exact ⟨List.mem_of_find?_eq_some found, by simpa using List.find?_some found⟩

theorem object_of_distinct (distinct : (s.objects.map SchemaObject.id).Nodup) (id : ObjectId) :
    s.object id = match s.objects.find? fun o => o.id == id with
      | some o => .ok o
      | none => .error (.unknownObject id) := by
  have ids := checkIds_iff_nodup.mpr distinct
  cases found : s.objects.find? fun o => o.id == id with
  | some o => simp only [object, ids, found]
  | none => simp only [object, ids, found]

theorem object_of_mem (distinct : (s.objects.map SchemaObject.id).Nodup) {o : SchemaObject}
    (member : o ∈ s.objects) : s.object o.id = .ok o := by
  rw [object_of_distinct distinct]
  cases found : s.objects.find? fun other => other.id == o.id with
  | none => simpa using List.find?_eq_none.mp found o member
  | some other =>
    have same : other.id = o.id := by simpa using List.find?_some found
    rw [List.inj_on_of_nodup_map distinct (List.mem_of_find?_eq_some found) member same]

theorem Sound.object_of_mem (h : s.Sound) {o : SchemaObject} (member : o ∈ s.objects) :
    s.object o.id = .ok o := Schema.object_of_mem h.distinct member

theorem ofKind_eq_ok {α : Type} {id : ObjectId} {kind : ObjectKind} {select : SchemaObject → Option α}
    {a : α} : s.ofKind id kind select = .ok a ↔ ∃ o, s.object id = .ok o ∧ select o = some a := by
  simp only [ofKind]
  cases s.object id with
  | error e => simp
  | ok o => cases chosen : select o <;> simp [chosen]

theorem elementType_eq_ok {id : ObjectId} {t : ElementType} :
    s.elementType id = .ok t ↔ s.object id = .ok (.elementType t) := by
  simp only [elementType, ofKind_eq_ok]
  constructor
  · rintro ⟨o, found, chosen⟩
    cases o <;> simp_all
  · intro found
    exact ⟨_, found, rfl⟩

theorem elementReference_eq_ok {id : ObjectId} {r : ElementReference} :
    s.elementReference id = .ok r ↔ s.object id = .ok (.elementReference r) := by
  simp only [elementReference, ofKind_eq_ok]
  constructor
  · rintro ⟨o, found, chosen⟩
    cases o <;> simp_all
  · intro found
    exact ⟨_, found, rfl⟩

theorem attributeDecl_eq_ok {id : ObjectId} {a : AttributeDecl} :
    s.attributeDecl id = .ok a ↔ ∃ owner, s.object id = .ok (.attributeDecl owner a) := by
  simp only [attributeDecl, ofKind_eq_ok]
  constructor
  · rintro ⟨o, found, chosen⟩
    cases o <;> simp_all
  · rintro ⟨owner, found⟩
    exact ⟨_, found, rfl⟩

theorem function_eq_ok {id : ObjectId} {f : FunctionDecl} :
    s.function id = .ok f ↔ s.object id = .ok (.function f) := by
  simp only [function, ofKind_eq_ok]
  constructor
  · rintro ⟨o, found, chosen⟩
    cases o <;> simp_all
  · intro found
    exact ⟨_, found, rfl⟩

theorem parameter_eq_ok {id : ObjectId} {p : ParameterDecl} :
    s.parameter id = .ok p ↔ s.object id = .ok (.parameter p) := by
  simp only [parameter, ofKind_eq_ok]
  constructor
  · rintro ⟨o, found, chosen⟩
    cases o <;> simp_all
  · intro found
    exact ⟨_, found, rfl⟩

theorem mem_objects {o : SchemaObject} : o ∈ s.objects ↔
    (∃ t ∈ s.elementTypes, o = .elementType t ∨ (∃ a ∈ t.attributes, o = .attributeDecl t a) ∨
      ∃ r ∈ t.elements, o = .elementReference r) ∨
    (∃ r ∈ s.rootElements, o = .elementReference r) ∨ (∃ f ∈ s.functions, o = .function f) ∨
    ∃ p ∈ s.parameters, o = .parameter p := by
  simp [objects, objectsOf, eq_comm]

namespace Sound

variable (h : s.Sound)
include h

theorem elementType_of_mem {t : ElementType} (member : t ∈ s.elementTypes) :
    s.elementType t.id = .ok t :=
  elementType_eq_ok.mpr (h.object_of_mem (o := .elementType t)
    (mem_objects.mpr (.inl ⟨t, member, .inl rfl⟩)))

theorem attributeDecl_of_mem {t : ElementType} {a : AttributeDecl} (member : t ∈ s.elementTypes)
    (inside : a ∈ t.attributes) : s.attributeDecl a.id = .ok a :=
  attributeDecl_eq_ok.mpr ⟨t, h.object_of_mem (o := .attributeDecl t a)
    (mem_objects.mpr (.inl ⟨t, member, .inr (.inl ⟨a, inside, rfl⟩)⟩))⟩

theorem elementReference_of_mem {r : ElementReference} (member : r ∈ s.references) :
    s.elementReference r.id = .ok r := by
  refine elementReference_eq_ok.mpr (h.object_of_mem (o := .elementReference r) (mem_objects.mpr ?_))
  rcases List.mem_append.mp member with root | nested
  · exact .inr (.inl ⟨r, root, rfl⟩)
  · obtain ⟨t, known, inside⟩ := List.mem_flatMap.mp nested
    exact .inl ⟨t, known, .inr (.inr ⟨r, inside, rfl⟩)⟩

theorem function_of_mem {f : FunctionDecl} (member : f ∈ s.functions) : s.function f.id = .ok f :=
  function_eq_ok.mpr (h.object_of_mem (o := .function f)
    (mem_objects.mpr (.inr (.inr (.inl ⟨f, member, rfl⟩)))))

theorem parameter_of_mem {p : ParameterDecl} (member : p ∈ s.parameters) :
    s.parameter p.id = .ok p :=
  parameter_eq_ok.mpr (h.object_of_mem (o := .parameter p)
    (mem_objects.mpr (.inr (.inr (.inr ⟨p, member, rfl⟩)))))

end Sound

theorem mem_of_elementType {id : ObjectId} {t : ElementType} (h : s.elementType id = .ok t) :
    t ∈ s.elementTypes ∧ t.id = id := by
  obtain ⟨member, same⟩ := object_eq_ok (elementType_eq_ok.mp h)
  rcases mem_objects.mp member with ⟨u, known, shape⟩ | ⟨_, _, shape⟩ | ⟨_, _, shape⟩ | ⟨_, _, shape⟩
  · rcases shape with shape | ⟨_, _, shape⟩ | ⟨_, _, shape⟩
    · cases shape
      exact ⟨known, same⟩
    · cases shape
    · cases shape
  · cases shape
  · cases shape
  · cases shape

theorem mem_of_elementReference {id : ObjectId} {r : ElementReference}
    (known : s.elementReference id = .ok r) : r ∈ s.references := by
  obtain ⟨member, -⟩ := object_eq_ok (elementReference_eq_ok.mp known)
  rcases mem_objects.mp member with ⟨t, inside, shape⟩ | ⟨q, inside, shape⟩ | ⟨_, _, shape⟩ |
    ⟨_, _, shape⟩
  · rcases shape with shape | ⟨_, _, shape⟩ | ⟨q, nested, shape⟩
    · cases shape
    · cases shape
    · cases shape
      exact List.mem_append_right _ (List.mem_flatMap.mpr ⟨t, inside, nested⟩)
  · cases shape
    exact List.mem_append_left _ inside
  · cases shape
  · cases shape

theorem mem_of_attributeDecl {id : ObjectId} {owner : ElementType} {a : AttributeDecl}
    (found : s.object id = .ok (.attributeDecl owner a)) :
    owner ∈ s.elementTypes ∧ a ∈ owner.attributes := by
  obtain ⟨member, -⟩ := object_eq_ok found
  rcases mem_objects.mp member with ⟨t, inside, shape⟩ | ⟨_, _, shape⟩ | ⟨_, _, shape⟩ |
    ⟨_, _, shape⟩
  · rcases shape with shape | ⟨b, declared, shape⟩ | ⟨_, _, shape⟩
    · cases shape
    · cases shape
      exact ⟨inside, declared⟩
    · cases shape
  · cases shape
  · cases shape
  · cases shape

theorem isQualified_of_elementReference (h : s.check = .ok ()) {id : ObjectId} {r : ElementReference}
    (known : s.elementReference id = .ok r) : Name.isQualified r.name.toList = true := by
  simp only [check, Outcome.bind_eq_ok] at h
  obtain ⟨_, -, _, references, -⟩ := h
  have fine := Outcome.forM_eq_ok.mp references r (mem_of_elementReference known)
  rw [checkReference] at fine
  split at fine
  · assumption
  · cases fine

theorem isQualified_of_attributeDecl (h : s.check = .ok ()) {id : ObjectId} {a : AttributeDecl}
    (known : s.attributeDecl id = .ok a) : Name.isQualified a.name.toList = true := by
  obtain ⟨owner, found⟩ := attributeDecl_eq_ok.mp known
  obtain ⟨inside, declared⟩ := mem_of_attributeDecl found
  simp only [check, Outcome.bind_eq_ok] at h
  obtain ⟨_, -, _, -, attributes⟩ := h
  have fine := Outcome.forM_eq_ok.mp (Outcome.forM_eq_ok.mp attributes owner inside) a declared
  rw [checkAttribute] at fine
  split at fine
  · assumption
  · cases fine

end TaintScan.Schema
