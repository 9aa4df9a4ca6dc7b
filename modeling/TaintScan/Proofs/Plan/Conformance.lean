import Mathlib.Data.List.Chain
import TaintScan.Proofs.Plan.Arrangement
import TaintScan.Proofs.Plan.Fitting

namespace TaintScan

namespace ContentRule

mutual

/-- The element rules of a tree, each before those below it. -/
def elements : ContentRule → List ElementRule
  | element id reference attributes content =>
    ⟨id, reference, attributes, content⟩ :: elementsOf content
  | data _ => []
  | raw _ _ => []

def elementsOf : List ContentRule → List ElementRule
  | [] => []
  | c :: rest => elements c ++ elementsOf rest

end

mutual

theorem length_elements : (c : ContentRule) → c.elements.length = c.elementCount
  | element _ _ _ content => by
    rw [elements, elementCount, List.length_cons, length_elementsOf content, Nat.add_comm]
  | data _ => rfl
  | raw _ _ => rfl

theorem length_elementsOf : (content : List ContentRule) →
    (elementsOf content).length = elementCountOf content
  | [] => rfl
  | c :: rest => by
    rw [elementsOf, elementCountOf, List.length_append, length_elements c, length_elementsOf rest]

end

def isElement : ContentRule → Bool
  | element _ _ _ _ => true
  | data _ => false
  | raw _ _ => false

def isRaw : ContentRule → Bool
  | element _ _ _ _ => false
  | data _ => false
  | raw _ _ => true

def childTargets (content : List ContentRule) : List ObjectId := (content.filter isElement).map target

theorem elements_eq_nil {c : ContentRule} (other : c.isElement = false) : c.elements = [] := by
  cases c with
  | element => cases other
  | data => rfl
  | raw => rfl

theorem isRaw_of_isElement {c : ContentRule} (child : c.isElement = true) : c.isRaw = false := by
  cases c with
  | element => rfl
  | data => cases child
  | raw => cases child

theorem elementsOf_filter (content : List ContentRule) :
    elementsOf (content.filter isElement) = elementsOf content := by
  induction content with
  | nil => rfl
  | cons c rest ih =>
    cases kind : c.isElement with
    | true => rw [List.filter_cons_of_pos kind, elementsOf, elementsOf, ih]
    | false =>
      rw [List.filter_cons_of_neg (by simp [kind]), elementsOf, ih, elements_eq_nil kind]
      rfl

theorem childTargets_of_all {content : List ContentRule} (all : ∀ c ∈ content, c.isElement = true) :
    childTargets content = content.map target := by
  rw [childTargets, List.filter_eq_self.mpr all]

end ContentRule

/-- Rules that bear declared attributes: mandatory ones always, each of them once at most. -/
structure Bears (attributes : List AttributeDecl) (rules : List ScalarRule) : Prop where
  ordered : (rules.map ScalarRule.target).Sublist (attributes.map AttributeDecl.id)
  once : (rules.map ScalarRule.target).Nodup
  mandatory : ∀ a ∈ attributes, a.isOptional = false → a.id ∈ rules.map ScalarRule.target

namespace Bears

variable {a : AttributeDecl} {rest : List AttributeDecl} {rules : List ScalarRule}

theorem cons (h : Bears rest rules) (fresh : a.id ∉ rest.map AttributeDecl.id) (id : RuleId) :
    Bears (a :: rest) (.fresh id a.id :: rules) := by
  refine ⟨h.ordered.cons_cons a.id, List.nodup_cons.mpr ⟨?_, h.once⟩, ?_⟩
  · exact fun again => fresh (h.ordered.subset again)
  · rw [List.forall_mem_cons]
    refine ⟨fun _ => List.mem_cons_self, fun b member needed => ?_⟩
    exact List.mem_cons_of_mem _ (h.mandatory b member needed)

theorem skip (h : Bears rest rules) (optional : a.isOptional = true) : Bears (a :: rest) rules := by
  refine ⟨h.ordered.cons a.id, h.once, ?_⟩
  rw [List.forall_mem_cons, optional]
  exact ⟨nofun, h.mandatory⟩

end Bears

namespace ElementType

variable (t : ElementType) (limits : Limits) (mode : RawMode)

structure Parents (complete : Prop) (content : List ContentRule) : Prop where
  arranged : t.Arranges limits (ContentRule.childTargets content)
  filled : complete → t.Fills (ContentRule.childTargets content)

structure Interspersed (content : List ContentRule) : Prop where
  kinds : ∀ c ∈ content, c.isElement = true ∨ ∃ id, c = .raw (.fresh id t.id) mode
  some : 1 ≤ content.countP ContentRule.isRaw
  most : content.countP ContentRule.isRaw ≤ content.countP ContentRule.isElement + 1
  apart : content.IsChain fun a b => ¬ (a.isRaw = true ∧ b.isRaw = true)

def Admits (complete : Prop) (content : List ContentRule) : Prop :=
  match t.contentType with
  | .empty => content = []
  | .data => ∃ id, content = [.data (.fresh id t.id)]
  | .element => (∀ c ∈ content, c.isElement = true) ∧ t.Parents limits complete content
  | .mixed =>
    if t.elements = [] then ∃ id, content = [.raw (.fresh id t.id) mode]
    else t.Interspersed mode content ∧ t.Parents limits complete content

variable {t limits mode}

theorem Parents.weaken {complete later : Prop} {content : List ContentRule}
    (h : t.Parents limits complete content) (weaker : later → complete) :
    t.Parents limits later content := ⟨h.arranged, fun ended => h.filled (weaker ended)⟩

theorem Admits.weaken {complete later : Prop} {content : List ContentRule}
    (h : t.Admits limits mode complete content) (weaker : later → complete) :
    t.Admits limits mode later content := by
  cases shape : t.contentType with
  | empty => simpa only [Admits, shape] using h
  | data => simpa only [Admits, shape] using h
  | element =>
    simp only [Admits, shape] at h ⊢
    exact ⟨h.1, h.2.weaken weaker⟩
  | mixed =>
    simp only [Admits, shape] at h ⊢
    by_cases none : t.elements = []
    · rw [if_pos none] at h ⊢
      exact h
    · rw [if_neg none] at h ⊢
      exact ⟨h.1, h.2.weaken weaker⟩

end ElementType

namespace ElementRule

/-- The rule has what the type of its reference declares. -/
def Conforms (schema : Schema) (limits : Limits) (mode : RawMode) (complete : Prop)
    (e : ElementRule) : Prop :=
  ∃ r t, schema.elementReference e.reference = .ok r ∧ schema.referencedType r = .ok t ∧
    Bears t.attributes e.attributes ∧ t.Admits limits mode complete e.content

variable {schema : Schema} {limits : Limits} {mode : RawMode}

theorem Conforms.weaken {complete later : Prop} {e : ElementRule}
    (h : e.Conforms schema limits mode complete) (weaker : later → complete) :
    e.Conforms schema limits mode later := by
  obtain ⟨r, t, known, leads, attributes, content⟩ := h
  exact ⟨r, t, known, leads, attributes, content.weaken weaker⟩

end ElementRule

namespace Schema.Sound

variable {schema : Schema} (sound : schema.Sound)
include sound

theorem distinct_objectsOf {t : ElementType} (member : t ∈ schema.elementTypes) :
    ((objectsOf t).map SchemaObject.id).Nodup := by
  have types : ((schema.elementTypes.flatMap objectsOf).map SchemaObject.id).Nodup := by
    refine sound.distinct.sublist (List.Sublist.map _ ?_)
    simp only [objects, List.append_assoc]
    exact List.sublist_append_left _ _
  rw [List.map_flatMap] at types
  exact (List.nodup_flatMap.mp types).1 t member

theorem distinct_references {t : ElementType} (member : t ∈ schema.elementTypes) :
    (t.elements.map ElementReference.id).Nodup := by
  have all := sound.distinct_objectsOf member
  simp only [objectsOf, List.cons_append, List.map_cons, List.map_append, List.map_map] at all
  exact (List.nodup_append.mp (List.nodup_cons.mp all).2).2.1

theorem distinct_attributes {t : ElementType} (member : t ∈ schema.elementTypes) :
    (t.attributes.map AttributeDecl.id).Nodup := by
  have all := sound.distinct_objectsOf member
  simp only [objectsOf, List.cons_append, List.map_cons, List.map_append, List.map_map] at all
  exact (List.nodup_append.mp (List.nodup_cons.mp all).2).1

end Schema.Sound

section Fitting

variable {schema : Schema} {limits : Limits} {mode : RawMode} {complete : Prop}

theorem ElementType.Admits.kinds {t : ElementType} {content : List ContentRule}
    (h : t.Admits limits mode complete content) (known : schema.elementType t.id = .ok t) :
    ∀ c ∈ content, c.isElement = true ∨ c.Fits schema := by
  unfold Admits at h
  split at h
  · simp [h]
  · rename_i data
    obtain ⟨id, rfl⟩ := h
    simpa using .inr ⟨t, known, data⟩
  · exact fun c member => .inl (h.1 c member)
  · rename_i mixed
    split at h
    · obtain ⟨id, rfl⟩ := h
      simpa using .inr ⟨t, known, mixed⟩
    · intro c member
      rcases h.1.kinds c member with child | ⟨id, rfl⟩
      · exact .inl child
      · exact .inr ⟨t, known, mixed⟩

namespace ContentRule

mutual

theorem fits_of_conform (sound : schema.Sound) : (c : ContentRule) → c.isElement = true →
    (∀ e ∈ c.elements, e.Conforms schema limits mode complete) → c.Fits schema
  | .element _ _ attributes content, _, conform => by
    obtain ⟨own, below⟩ := List.forall_mem_cons.mp conform
    obtain ⟨r, t, known, leads, bears, admits⟩ := own
    have member := (Schema.mem_of_elementType leads).1
    have declared : ∀ a ∈ attributes, ∃ attr, schema.attributeDecl a.target = .ok attr := by
      intro a written
      obtain ⟨b, inside, same⟩ := List.mem_map.mp (bears.ordered.subset (List.mem_map_of_mem written))
      exact ⟨b, same ▸ sound.attributeDecl_of_mem member inside⟩
    have kinds := admits.kinds (sound.elementType_of_mem member)
    exact ⟨⟨r, known⟩, declared, fitsAll_of_conform sound content kinds below⟩

theorem fitsAll_of_conform (sound : schema.Sound) : (content : List ContentRule) →
    (∀ c ∈ content, c.isElement = true ∨ c.Fits schema) →
    (∀ e ∈ elementsOf content, e.Conforms schema limits mode complete) → FitsAll schema content
  | [], _, _ => trivial
  | c :: rest, kinds, conform => by
    obtain ⟨kind, kinds⟩ := List.forall_mem_cons.mp kinds
    obtain ⟨first, others⟩ := List.forall_mem_append.mp conform
    refine ⟨?_, fitsAll_of_conform sound rest kinds others⟩
    rcases kind with child | fits
    · exact fits_of_conform sound c child first
    · exact fits

end

end ContentRule

end Fitting

end TaintScan
