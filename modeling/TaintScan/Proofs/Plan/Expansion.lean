import TaintScan.Proofs.Plan.Conformance
import TaintScan.Proofs.Plan.Steps

namespace TaintScan

/-- Something may have to be decided by chance with a probability that is no number. -/
def GenerationSettings.Undecided (settings : GenerationSettings) (schema : Schema) : Prop :=
  (settings.optionalAttributeProbability.isNaN = true ∧
    ∃ t ∈ schema.elementTypes, ∃ a ∈ t.attributes, a.isOptional = true) ∨
  (settings.rawContentProbability.isNaN = true ∧
    ∃ t ∈ schema.elementTypes, t.contentType = .mixed ∧ t.elements ≠ [])

namespace Plan

open Grow (YieldsFrom)

variable {schema : Schema} {settings : GenerationSettings} {mode : RawMode} {broken : Prop}
  {n m k : Nat}

structure Grown (schema : Schema) (settings : GenerationSettings) (mode : RawMode) (n : Nat)
    (rules : List ElementRule) (k : Nat) : Prop where
  counted : k = n + rules.length
  bounded : k ≤ max n settings.limits.maxElements.toNat
  conform : ∀ e ∈ rules,
    e.Conforms schema settings.limits mode (k < settings.limits.maxElements.toNat)

namespace Grown

theorem nil : Grown schema settings mode n [] n := ⟨rfl, by omega, by simp⟩

theorem append {front back : List ElementRule} (first : Grown schema settings mode n front m)
    (next : Grown schema settings mode m back k) :
    Grown schema settings mode n (front ++ back) k := by
  obtain ⟨count, bound, conform⟩ := first
  obtain ⟨more, limit, others⟩ := next
  refine ⟨by rw [List.length_append]; omega, by omega, fun e member => ?_⟩
  rcases List.mem_append.mp member with early | late
  · exact (conform e early).weaken fun below => by omega
  · exact others e late

end Grown

theorem growAttributes_bears {attributes : List AttributeDecl}
    (distinct : (attributes.map AttributeDecl.id).Nodup)
    (undecided : settings.optionalAttributeProbability.isNaN = true →
      (∃ a ∈ attributes, a.isOptional = true) → broken) :
    YieldsFrom broken n (growAttributes settings attributes) fun rules k =>
      Bears attributes rules ∧ k = n := by
  induction attributes with
  | nil => exact .pure ⟨⟨by simp, by simp, by simp⟩, rfl⟩
  | cons a rest ih =>
    obtain ⟨fresh, distinct⟩ := List.nodup_cons.mp distinct
    have others := ih distinct fun odd ⟨b, member, optional⟩ =>
      undecided odd ⟨b, List.mem_cons_of_mem a member, optional⟩
    have continued : ∀ (included : Bool) k, (included = false → a.isOptional = true) ∧ k = n →
        YieldsFrom broken k (if included then (do
          let id ← Grow.ruleId
          let rules ← growAttributes settings rest
          return .fresh id a.id :: rules)
        else growAttributes settings rest) fun rules k => Bears (a :: rest) rules ∧ k = n := by
      rintro included k ⟨skipped, rfl⟩
      cases included with
      | true =>
        refine .bind .ruleId fun id _ same => ?_
        subst same
        exact .bind others fun rules _ known => .pure ⟨known.1.cons fresh id, known.2⟩
      | false => exact others.mono fun rules _ known => ⟨known.1.skip (skipped rfl), known.2⟩
    rw [growAttributes]
    cases optional : a.isOptional with
    | true =>
      have drawn : YieldsFrom broken n
          (Grow.attempt (Random.chance settings.optionalAttributeProbability)) fun _ k => k = n := by
        refine .mono (.attempt ((Random.chance_gives _).mono (fun _ _ => trivial) ?_)) fun _ _ => And.right
        exact fun cause odd => ⟨odd.1, undecided odd.2 ⟨a, List.mem_cons_self, optional⟩⟩
      refine .bind drawn fun included k same => ?_
      exact continued included k ⟨fun _ => optional, same⟩
    | false => exact .bind (.pure ⟨by simp, rfl⟩) continued

theorem growRaw_eq (t : ElementType) :
    YieldsFrom broken n (growRaw mode t) fun c k => (∃ id, c = .raw (.fresh id t.id) mode) ∧ k = n :=
  .bind .ruleId fun id _ same => .pure ⟨⟨id, rfl⟩, same⟩

section Children

variable {expand : ElementReference → Grow ContentRule} {t : ElementType}

/-- Below the ceiling each reference is expanded to one element and those below it. -/
def Expands (schema : Schema) (settings : GenerationSettings) (mode : RawMode)
    (expand : ElementReference → Grow ContentRule) (n : Nat) (references : List ElementReference) :
    Prop :=
  ∀ r ∈ references, ∀ m, n ≤ m → m < settings.limits.maxElements.toNat →
    YieldsFrom (settings.Undecided schema) m (expand r) fun c k => c.isElement = true ∧ c.target = r.id ∧
      Grown schema settings mode m c.elements k

theorem Expands.subset {some all : List ElementReference} (h : Expands schema settings mode expand n all)
    (inside : ∀ r ∈ some, r ∈ all) : Expands schema settings mode expand n some :=
  fun r member => h r (inside r member)

theorem expandAll_grown {references : List ElementReference}
    (step : Expands schema settings mode expand n references) :
    ∀ m, n ≤ m → YieldsFrom (settings.Undecided schema) m (expandAll settings expand references) fun content k =>
      (∀ c ∈ content, c.isElement = true) ∧
      content.map ContentRule.target <+: references.map ElementReference.id ∧
      (k < settings.limits.maxElements.toNat →
        content.map ContentRule.target = references.map ElementReference.id) ∧
      Grown schema settings mode m (ContentRule.elementsOf content) k := by
  induction references with
  | nil => exact fun m _ => .pure ⟨by simp, by simp, fun _ => rfl, .nil⟩
  | cons r rest ih =>
    intro m behind
    refine .guarded (fun below => ?_) fun above => .pure ⟨by simp, by simp, ?_, .nil⟩
    · refine .bind (step r (by simp) m behind below) fun child between one => ?_
      obtain ⟨kind, target, grown⟩ := one
      have advanced : n ≤ between := by
        have count := grown.counted
        omega
      have others := ih (step.subset fun q => List.mem_cons_of_mem r) between advanced
      refine .bind others fun content final known => .pure ?_
      obtain ⟨kinds, front, whole, more⟩ := known
      refine ⟨List.forall_mem_cons.mpr ⟨kind, kinds⟩, ?_, fun ended => ?_, grown.append more⟩
      · rw [List.map_cons, List.map_cons, target]
        exact (List.prefix_cons_inj r.id).mpr front
      · rw [List.map_cons, List.map_cons, target, whole ended]
    · exact fun ended => absurd ended above

theorem growChildren_grown (distinct : (t.elements.map ElementReference.id).Nodup)
    (step : Expands schema settings mode expand n t.elements) :
    YieldsFrom (settings.Undecided schema) n (growChildren settings expand t) fun content k =>
      (∀ c ∈ content, c.isElement = true) ∧
      t.Parents settings.limits (k < settings.limits.maxElements.toNat) content ∧
      Grown schema settings mode n (ContentRule.elementsOf content) k := by
  refine .guarded (fun below => ?_) fun above => .pure ⟨by simp, ⟨.nil, ?_⟩, .nil⟩
  · refine .bind (.draw (arrangeChildren_arranges distinct)) fun planned between drawn => ?_
    obtain ⟨⟨subset, arranged, filled⟩, rfl⟩ := drawn
    have expanded := expandAll_grown (step.subset subset) between (Nat.le_refl _)
    refine expanded.mono fun content final known => ?_
    obtain ⟨kinds, front, whole, grown⟩ := known
    have targets := ContentRule.childTargets_of_all kinds
    refine ⟨kinds, ⟨targets ▸ arranged.of_prefix front, fun ended => ?_⟩, grown⟩
    rw [targets, whole ended]
    exact filled
  · exact fun ended => absurd ended above

structure Filled (t : ElementType) (mode : RawMode) (gaps : List Bool)
    (children content : List ContentRule) : Prop where
  kinds : ∀ c ∈ content, c.isElement = true ∨ ∃ id, c = .raw (.fresh id t.id) mode
  children : content.filter ContentRule.isElement = children
  raws : content.countP ContentRule.isRaw = gaps.count true
  apart : content.IsChain fun a b => ¬ (a.isRaw = true ∧ b.isRaw = true)

theorem Filled.child {gaps : List Bool} {child : ContentRule} {children content : List ContentRule}
    (h : Filled t mode gaps children content) (kind : child.isElement = true) :
    Filled t mode (false :: gaps) (child :: children) (child :: content) := by
  have tag := ContentRule.isRaw_of_isElement kind
  refine ⟨List.forall_mem_cons.mpr ⟨.inl kind, h.kinds⟩, ?_, ?_, ?_⟩
  · rw [List.filter_cons_of_pos kind, h.children]
  · rw [List.countP_cons_of_neg (by simp [tag]), h.raws, List.count_cons_of_ne (by simp)]
  · exact List.isChain_cons.mpr ⟨fun _ _ both => by simp [tag] at both, h.apart⟩

theorem Filled.text {gaps : List Bool} {children content : List ContentRule} (id : RuleId)
    (h : Filled t mode (false :: gaps) children content)
    (next : ∀ c ∈ content.head?, c.isElement = true) :
    Filled t mode (true :: gaps) children (.raw (.fresh id t.id) mode :: content) := by
  refine ⟨List.forall_mem_cons.mpr ⟨.inr ⟨id, rfl⟩, h.kinds⟩, ?_, ?_, ?_⟩
  · rw [List.filter_cons_of_neg (by simp [ContentRule.isElement]), h.children]
  · rw [List.countP_cons_of_pos (by rfl), h.raws]
    simp
  · refine List.isChain_cons.mpr ⟨fun c following both => ?_, h.apart⟩
    rw [ContentRule.isRaw_of_isElement (next c following)] at both
    cases both.2

theorem fillGaps_filled (t : ElementType) {gaps : List Bool} :
    ∀ {children : List ContentRule}, (∀ c ∈ children, c.isElement = true) →
    gaps.length = children.length + 1 →
    YieldsFrom broken n (fillGaps mode t gaps children) fun content k =>
      Filled t mode gaps children content ∧ k = n := by
  induction gaps with
  | nil => exact fun _ length => by simp at length
  | cons gap rest ih =>
    intro children kinds length
    -- What follows the gap begins with a child or is nothing at all.
    have behind : YieldsFrom broken n (fillGaps mode t rest children.tail) fun others k =>
        (Filled t mode (false :: rest) children (children.head?.toList ++ others) ∧
          ∀ c ∈ (children.head?.toList ++ others).head?, c.isElement = true) ∧ k = n := by
      cases children with
      | nil =>
        have none : rest = [] := List.eq_nil_of_length_eq_zero (by simpa using length)
        subst none
        exact .pure ⟨⟨⟨by simp, rfl, rfl, .nil⟩, by simp⟩, rfl⟩
      | cons child children =>
        obtain ⟨kind, kinds⟩ := List.forall_mem_cons.mp kinds
        refine (ih kinds (by simpa using length)).mono fun others k filled => ?_
        exact ⟨⟨filled.1.child kind, by simpa using kind⟩, filled.2⟩
    rw [fillGaps]
    cases gap with
    | true =>
      have single : YieldsFrom broken n (List.singleton <$> growRaw mode t) fun filling k =>
          (∃ id, filling = [.raw (.fresh id t.id) mode]) ∧ k = n :=
        .map (growRaw_eq t) fun c k written => by
          obtain ⟨⟨id, rfl⟩, same⟩ := written
          exact ⟨⟨id, rfl⟩, same⟩
      rw [if_pos rfl]
      refine .bind single fun filling k one => ?_
      obtain ⟨⟨id, rfl⟩, rfl⟩ := one
      refine .bind behind fun others k more => .pure ?_
      obtain ⟨⟨filled, next⟩, same⟩ := more
      exact ⟨filled.text id next, same⟩
    | false =>
      have none : YieldsFrom broken n (pure [] : Grow (List ContentRule)) fun filling k =>
        filling = [] ∧ k = n := .pure ⟨rfl, rfl⟩
      rw [if_neg (by simp)]
      refine .bind none fun filling k one => ?_
      obtain ⟨rfl, rfl⟩ := one
      refine .bind behind fun others k more => .pure ?_
      exact ⟨more.1.1, more.2⟩

theorem Filled.interspersed {gaps : List Bool} {children content : List ContentRule}
    (h : Filled t mode gaps children content) (some : true ∈ gaps)
    (length : gaps.length = children.length + 1) : t.Interspersed mode content := by
  have elements : content.countP ContentRule.isElement = children.length := by
    rw [List.countP_eq_length_filter, h.children]
  refine ⟨h.kinds, ?_, ?_, h.apart⟩
  · rw [h.raws]
    exact List.count_pos_iff.mpr some
  · rw [h.raws, elements, ← length]
    exact List.count_le_length

theorem growMixed_grown (owner : t ∈ schema.elementTypes) (mixed : t.contentType = .mixed)
    (distinct : (t.elements.map ElementReference.id).Nodup)
    (step : Expands schema settings mode expand n t.elements) :
    YieldsFrom (settings.Undecided schema) n (growMixed settings mode expand t) fun content k =>
      (if t.elements = [] then ∃ id, content = [.raw (.fresh id t.id) mode]
        else t.Interspersed mode content ∧
          t.Parents settings.limits (k < settings.limits.maxElements.toNat) content) ∧
      Grown schema settings mode n (ContentRule.elementsOf content) k := by
  unfold growMixed
  by_cases none : t.elements = []
  · rw [if_pos (by simpa using none)]
    refine .bind (growRaw_eq t) fun c k written => .pure ?_
    obtain ⟨⟨id, rfl⟩, rfl⟩ := written
    rw [if_pos none]
    exact ⟨⟨id, rfl⟩, .nil⟩
  · rw [if_neg (by simpa using none)]
    refine .bind (growChildren_grown distinct step) fun children k known => ?_
    obtain ⟨kinds, parents, grown⟩ := known
    have chosen : Random.Gives (chooseGaps settings (children.length + 1))
        (fun gaps => gaps.length = children.length + 1 ∧ true ∈ gaps)
        fun cause => cause = .probability ∧ settings.Undecided schema :=
      (chooseGaps_some (Nat.succ_pos children.length)).mono (fun _ some => some)
        fun cause odd => ⟨odd.1, .inr ⟨odd.2, t, owner, mixed, none⟩⟩
    refine .bind (.attempt chosen) fun gaps between drawn => ?_
    obtain ⟨⟨length, some⟩, rfl⟩ := drawn
    refine (fillGaps_filled t kinds length).mono fun content k filled => ?_
    obtain ⟨filled, rfl⟩ := filled
    have targets : ContentRule.childTargets content = ContentRule.childTargets children := by
      rw [ContentRule.childTargets_of_all kinds, ContentRule.childTargets, filled.children]
    rw [if_neg none, ← ContentRule.elementsOf_filter, filled.children]
    refine ⟨⟨filled.interspersed some length, ?_, ?_⟩, grown⟩
    · exact targets ▸ parents.arranged
    · exact targets ▸ parents.filled

theorem growContent_grown (owner : t ∈ schema.elementTypes)
    (distinct : (t.elements.map ElementReference.id).Nodup)
    (step : Expands schema settings mode expand n t.elements) :
    YieldsFrom (settings.Undecided schema) n (growContent settings mode expand t) fun content k =>
      t.Admits settings.limits mode (k < settings.limits.maxElements.toNat) content ∧
      Grown schema settings mode n (ContentRule.elementsOf content) k := by
  unfold growContent ElementType.Admits
  cases shape : t.contentType with
  | empty => exact .pure ⟨rfl, .nil⟩
  | data =>
    refine .bind .ruleId fun id k same => .pure ?_
    subst same
    exact ⟨⟨id, rfl⟩, .nil⟩
  | element =>
    refine (growChildren_grown distinct step).mono fun content k known => ?_
    exact ⟨⟨known.1, known.2.1⟩, known.2.2⟩
  | mixed => exact growMixed_grown owner shape distinct step

end Children

structure GrownElement (schema : Schema) (settings : GenerationSettings) (mode : RawMode) (n : Nat)
    (reference : ElementReference) (e : ElementRule) (k : Nat) : Prop where
  reference : e.reference = reference.id
  conforms : e.Conforms schema settings.limits mode (k < settings.limits.maxElements.toNat)
  inside : Grown schema settings mode (n + 1) (ContentRule.elementsOf e.content) k

theorem expands_of_grownElement {r : ElementReference} {tag : Grow ElementRule}
    (below : n < settings.limits.maxElements.toNat)
    (grown : YieldsFrom (settings.Undecided schema) n tag (GrownElement schema settings mode n r)) :
    YieldsFrom (settings.Undecided schema) n (ElementRule.toContent <$> tag) fun c k =>
      c.isElement = true ∧ c.target = r.id ∧ Grown schema settings mode n c.elements k := by
  refine .map grown fun e k facts => ?_
  obtain ⟨target, conforms, count, bound, conform⟩ := facts
  have rules : e.toContent.elements = e :: ContentRule.elementsOf e.content := rfl
  refine ⟨rfl, target, ?_, by omega, rules ▸ List.forall_mem_cons.mpr ⟨conforms, conform⟩⟩
  rw [rules, List.length_cons]
  omega

def growTag (schema : Schema) (settings : GenerationSettings)
    (content : ElementType → Grow (List ContentRule)) (reference : ElementReference) :
    Grow ElementRule := do
  Grow.countElement
  match schema.referencedType reference with
  | .error e => throw e
  | .ok t =>
    let id ← Grow.ruleId
    let attributes ← growAttributes settings t.attributes
    let content ← content t
    return ⟨id, reference.id, attributes, content⟩

theorem growElement_succ (budget : Nat) (reference : ElementReference) :
    growElement schema settings mode (budget + 1) reference =
      growTag schema settings (growContent settings mode fun r =>
        ElementRule.toContent <$> growElement schema settings mode budget r) reference := by
  rw [growElement]
  rfl

theorem mem_references_of_elementType {t : ElementType} {id : ObjectId}
    (h : schema.elementType id = .ok t) : ∀ r ∈ t.elements, r ∈ schema.references := by
  intro r member
  have nested := List.mem_flatMap.mpr ⟨t, (Schema.mem_of_elementType h).1, member⟩
  exact List.mem_append.mpr (.inr nested)

theorem growTag_grown (sound : schema.Sound) {reference : ElementReference} {t : ElementType}
    (member : reference ∈ schema.references) (leads : schema.referencedType reference = .ok t)
    {content : ElementType → Grow (List ContentRule)}
    (inside : YieldsFrom (settings.Undecided schema) (n + 1) (content t) fun rules k =>
      t.Admits settings.limits mode (k < settings.limits.maxElements.toNat) rules ∧
      Grown schema settings mode (n + 1) (ContentRule.elementsOf rules) k) :
    YieldsFrom (settings.Undecided schema) n (growTag schema settings content reference)
      (GrownElement schema settings mode n reference) := by
  have owner := (Schema.mem_of_elementType leads).1
  have declared := sound.distinct_attributes owner
  refine .bind .countElement fun _ start counted => ?_
  subst counted
  simp only [leads]
  refine .bind .ruleId fun id between same => ?_
  subst same
  have undecided : settings.optionalAttributeProbability.isNaN = true →
      (∃ a ∈ t.attributes, a.isOptional = true) → settings.Undecided schema :=
    fun odd optional => .inl ⟨odd, t, owner, optional⟩
  refine .bind (growAttributes_bears declared undecided) fun attributes between bears => ?_
  obtain ⟨bears, rfl⟩ := bears
  refine .bind inside fun rules final grown => .pure ?_
  obtain ⟨admits, grown⟩ := grown
  exact ⟨rfl, ⟨reference, t, sound.elementReference_of_mem member, leads, bears, admits⟩, grown⟩

/-- The budget outlasts the ceiling: whatever the depth, an element is expanded with some of it left. -/
theorem growElement_grown (sound : schema.Sound) (budget : Nat) {reference : ElementReference}
    (member : reference ∈ schema.references) (some : 0 < budget)
    (enough : settings.limits.maxElements.toNat < budget + n) :
    YieldsFrom (settings.Undecided schema) n (growElement schema settings mode budget reference)
      (GrownElement schema settings mode n reference) := by
  induction budget generalizing n reference with
  | zero => omega
  | succ budget ih =>
    obtain ⟨t, leads⟩ := sound.linked reference member
    rw [growElement_succ]
    apply growTag_grown sound member leads
    have owner := (Schema.mem_of_elementType leads).1
    apply growContent_grown owner (sound.distinct_references owner)
    intro r child m behind below
    apply expands_of_grownElement below
    exact ih (mem_references_of_elementType leads r child) (by omega) (by omega)

end Plan

end TaintScan
