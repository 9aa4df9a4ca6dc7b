import TaintScan.Proofs.Plan.Growing
import TaintScan.Proofs.Plan.Persistence

namespace TaintScan

open Json (Value nestingLimit)
open Json.Value (present)

namespace ContentRule

mutual

/-- How many rules stand inside each other, those of attributes and values included. -/
def levels : ContentRule → Nat
  | element _ _ attributes content => max (min attributes.length 1) (levelsOf content) + 1
  | data _ => 1
  | raw _ _ => 1

def levelsOf : List ContentRule → Nat
  | [] => 0
  | c :: rest => max (levels c) (levelsOf rest)

end

theorem depth_scalar (targetName : String) (r : ScalarRule) : (r.toJson targetName).depth = 1 := by
  obtain ⟨id, target, requested⟩ := r
  cases requested with
  | none => rfl
  | some value => rfl

theorem depthItems_scalars (targetName : String) (rules : List ScalarRule) :
    Value.depthItems (rules.map (ScalarRule.toJson targetName)) = min rules.length 1 := by
  induction rules with
  | nil => rfl
  | cons r rest ih =>
    rw [List.map_cons, Value.depthItems, depth_scalar, ih, List.length_cons]
    omega

theorem depthMembers_append (front back : List (String × Value)) :
    Value.depthMembers (front ++ back) =
      max (Value.depthMembers front) (Value.depthMembers back) := by
  induction front with
  | nil => simp [Value.depthMembers]
  | cons m rest ih => rw [List.cons_append, Value.depthMembers, ih, Value.depthMembers, Nat.max_assoc]

theorem depthMembers_listMember {α : Type} (name : String) (f : α → Value) (items : List α) :
    Value.depthMembers (Value.listMember name f items) =
      min items.length 1 + Value.depthItems (items.map f) := by
  cases items with
  | nil => rfl
  | cons a rest =>
    simp only [Value.listMember, Value.depthMembers, Value.depth, List.length_cons]
    omega

theorem min_length_levelsOf (content : List ContentRule) :
    min content.length 1 = min (levelsOf content) 1 := by
  cases content with
  | nil => rfl
  | cons c rest =>
    have own : 1 ≤ c.levels := by cases c <;> simp [levels]
    rw [List.length_cons, levelsOf]
    omega

mutual

theorem depth_toJson_succ : (c : ContentRule) → c.toJson.depth + 1 = 2 * c.levels
  | element id reference attributes content => by
    -- What is below an element takes an array and an object.
    have below := depthItems_toJson content
    have given := min_length_levelsOf content
    have members : Value.depthMembers (present (slots (element id reference attributes content))) =
        max (min attributes.length 1 + min attributes.length 1)
          (min content.length 1 + Value.depthItems (content.map toJson)) := by
      simp [slots, ElementRule.slots, RuleId.toJson, ObjectId.toJson, Value.depthMembers,
        depthMembers_append, depthMembers_listMember, depthItems_scalars]
    rw [depth_toJson, Value.depth, members, levels]
    omega
  | data r => by
    have scalar := depth_scalar "element_type" r
    rw [ScalarRule.toJson_eq] at scalar
    rw [depth_toJson, slots, scalar, levels]
  | raw r mode => by
    obtain ⟨id, target, requested⟩ := r
    cases requested with
    | none => rfl
    | some value => rfl

theorem depthItems_toJson : (content : List ContentRule) →
    Value.depthItems (content.map toJson) = 2 * levelsOf content - 1
  | [] => rfl
  | c :: rest => by
    have first := depth_toJson_succ c
    have others := depthItems_toJson rest
    rw [List.map_cons, Value.depthItems, others, levelsOf]
    omega

end

mutual

theorem levels_le : (c : ContentRule) → c.levels ≤ c.elementCount + 1
  | element _ _ attributes content => by
    have below := levelsOf_le content
    rw [levels, elementCount]
    omega
  | data _ => Nat.le_refl 1
  | raw _ _ => Nat.le_refl 1

theorem levelsOf_le : (content : List ContentRule) → levelsOf content ≤ elementCountOf content + 1
  | [] => Nat.zero_le 1
  | c :: rest => by
    have first := levels_le c
    have others := levelsOf_le rest
    rw [levelsOf, elementCountOf]
    omega

end

mutual

theorem exists_childless : (c : ContentRule) → c.isElement = true →
    ∃ e ∈ c.elements, childTargets e.content = []
  | element id reference attributes content, _ => by
    rcases childless_or content with none | ⟨e, below, childless⟩
    · exact ⟨⟨id, reference, attributes, content⟩, List.mem_cons_self, none⟩
    · exact ⟨e, List.mem_cons_of_mem _ below, childless⟩

theorem childless_or : (content : List ContentRule) →
    childTargets content = [] ∨ ∃ e ∈ elementsOf content, childTargets e.content = []
  | [] => .inl rfl
  | c :: rest => by
    cases kind : c.isElement with
    | true =>
      obtain ⟨e, inside, childless⟩ := exists_childless c kind
      exact .inr ⟨e, List.mem_append_left _ inside, childless⟩
    | false =>
      rcases childless_or rest with none | ⟨e, inside, childless⟩
      · exact .inl (by rw [childTargets, List.filter_cons_of_neg (by simp [kind])]; exact none)
      · exact .inr ⟨e, List.mem_append_right _ inside, childless⟩

end

theorem levels_of_unbranched : (c : ContentRule) →
    (∀ e ∈ c.elements, e.attributes ≠ [] ∧ e.content.length ≤ 1) → c.levels = c.elementCount + 1
  | data _, _ => rfl
  | raw _ _, _ => rfl
  | element id reference attributes content, unbranched => by
    obtain ⟨own, below⟩ := List.forall_mem_cons.mp unbranched
    have given : 0 < attributes.length := List.length_pos_iff.mpr own.1
    match content, own.2, below with
    | [], _, _ =>
      simp only [levels, levelsOf, elementCount, elementCountOf]
      omega
    | [c], _, below =>
      have inner := levels_of_unbranched c fun e member => below e (List.mem_append_left _ member)
      simp only [levels, levelsOf, elementCount, elementCountOf, inner]
      omega

end ContentRule

namespace Plan

open TaintScan.Random (Source)

def levels (p : Plan) : Nat := p.root.toContent.levels

theorem requested?_fits (values : OrderedMap ObjectId String) (n : Nat) :
    Value.Fits (n + 1) (requested? values) := by
  intro v known
  unfold requested? at known
  split at known
  · cases known
  · cases known
    rw [Value.depth, Nat.add_le_add_iff_right, Value.depthMembers_le]
    intro m member
    obtain ⟨e, -, rfl⟩ := List.mem_map.mp member
    exact Nat.zero_le n

theorem ofJsonText_levels (p : Plan) : ofJsonText p.jsonText =
    if p.levels ≤ 63 then .ok p else .error (.json .malformed) := by
  have limit : nestingLimit = 126 + 1 := rfl
  have root : p.root.toJson.depth + 1 = 2 * p.levels := by
    rw [levels, ← p.root.toContent.depth_toJson_succ, ContentRule.depth_toJson, ElementRule.toJson_eq]
    rfl
  have scalars : ∀ (name : String) (rules : List ScalarRule),
      Value.Fits (125 + 1) (Value.ofList? (ScalarRule.toJson name) rules) := by
    intro name rules
    rw [Value.fits_list]
    intro r _
    rw [ContentRule.depth_scalar]
    omega
  have requested := requested?_fits p.requestedValues 125
  have fits : p.toJson.depth ≤ 126 + 1 ↔ p.root.toJson.depth ≤ 126 := by
    rw [toJson_eq, Value.depth_present_le]
    simp [slots, scalars, requested]
  rw [ofJsonText_eq, jsonText, Json.nesting_pretty, limit]
  by_cases inside : p.levels ≤ 63
  · rw [if_pos inside, if_pos (fits.mpr (by omega))]
  · rw [if_neg inside, if_neg (mt fits.mp (by omega))]

variable {schema : Schema} {settings : GenerationSettings} {mode : RawMode} {choice : RootChoice}
  {source rest : Source} {plan : Plan}

theorem generate_levels (sound : schema.Sound)
    (made : generate schema settings mode choice source = .ok (plan, rest)) :
    plan.levels ≤ max 1 settings.limits.maxElements.toNat + 1 := by
  obtain ⟨growth, -, grown⟩ := generate_grown sound made
  have count := grown.counted
  have bound := grown.bounded
  have inside := plan.root.toContent.levels_le
  rw [elementCount, ElementRule.elementCount] at count
  rw [levels]
  omega

section Nest

def boxType : ElementType :=
  ((ElementType.ofElements ⟨⟨1⟩⟩ "box" .sequence).withChild
    (.exactlyOnce ⟨⟨2⟩⟩ "box" ⟨⟨1⟩⟩)).withAttribute (.mandatory ⟨⟨3⟩⟩ "a" .anyText)

def boxSchema : Schema := ⟨"box.xsl", 1, [boxType], [boxType.reference ⟨⟨4⟩⟩ "box"], [], []⟩

theorem boxSchema_check : boxSchema.check = .ok () := rfl

theorem boxSchema_decided (settings : GenerationSettings) : ¬ settings.Undecided boxSchema := by
  rintro (⟨-, t, member, a, declared, optional⟩ | ⟨-, t, member, mixed, -⟩)
  · obtain rfl := List.mem_singleton.mp member
    obtain rfl := List.mem_singleton.mp declared
    cases optional
  · obtain rfl := List.mem_singleton.mp member
    cases mixed

theorem box_of_conforms {limits : Limits} {complete : Prop} {e : ElementRule}
    (conforms : e.Conforms boxSchema limits mode complete) :
    (e.attributes ≠ [] ∧ e.content.length ≤ 1) ∧
      (complete → ContentRule.childTargets e.content ≠ []) := by
  obtain ⟨r, t, -, leads, bears, admits⟩ := conforms
  have only : t = boxType := List.mem_singleton.mp (Schema.mem_of_elementType leads).1
  subst only
  have bearing : (⟨⟨3⟩⟩ : ObjectId) ∈ e.attributes.map ScalarRule.target :=
    bears.mandatory (.mandatory ⟨⟨3⟩⟩ "a" .anyText) List.mem_cons_self rfl
  have box : ElementReference.exactlyOnce ⟨⟨2⟩⟩ "box" ⟨⟨1⟩⟩ ∈ boxType.elements :=
    List.mem_cons_self
  have sequence : boxType.arrangement ≠ .choice := nofun
  obtain ⟨children, arranged, filled⟩ := admits
  have targets := ContentRule.childTargets_of_all children
  have all : ∀ id ∈ ContentRule.childTargets e.content, id = ⟨⟨2⟩⟩ := by
    intro id member
    obtain ⟨q, inside, same⟩ := arranged.declared id member
    rw [← same, List.mem_singleton.mp inside]
    rfl
  have most : (ContentRule.childTargets e.content).count ⟨⟨2⟩⟩ ≤ 1 :=
    arranged.most sequence _ box
  rw [List.eq_replicate_of_mem all, List.count_replicate_self] at most
  refine ⟨⟨?_, ?_⟩, fun complete none => ?_⟩
  · rintro none
    rw [none] at bearing
    cases bearing
  · rwa [targets, List.length_map] at most
  · have least := (filled complete).least sequence _ box
    rw [none] at least
    exact absurd least (by decide)

theorem boxes_levels (made : generate boxSchema settings mode choice source = .ok (plan, rest)) :
    plan.levels = max 1 settings.limits.maxElements.toNat + 1 := by
  obtain ⟨growth, -, grown⟩ := generate_grown (Schema.sound_of_check boxSchema_check) made
  have count : plan.root.toContent.elementCount = growth.count := grown.counted
  have bound := grown.bounded
  have unbranched := plan.root.toContent.levels_of_unbranched fun e inside =>
    (box_of_conforms (grown.conform e inside)).1
  -- The innermost box lacks a box of its own, which only a used up bound allows.
  obtain ⟨e, inside, childless⟩ := plan.root.toContent.exists_childless rfl
  have ended : ¬ growth.count < settings.limits.maxElements.toNat := fun room =>
    (box_of_conforms (grown.conform e inside)).2 room childless
  have root : 1 ≤ plan.root.toContent.elementCount := by
    rw [ElementRule.toContent, ContentRule.elementCount]
    omega
  rw [levels, unbranched]
  omega

end Nest

/-- A grown plan is read back from its text as long as its rules nest no deeper than 63 levels. All
plans of all checked schemas do so just if no more than 62 element rules are allowed. -/
theorem generated_reload (settings : GenerationSettings) (mode : RawMode) :
    (∀ plan : Plan, ofJsonText plan.jsonText =
      if plan.levels ≤ 63 then .ok plan else .error (.json .malformed)) ∧
    ((∀ schema choice source plan rest, schema.check = .ok () →
        generate schema settings mode choice source = .ok (plan, rest) →
          ofJsonText plan.jsonText = .ok plan) ↔
      settings.limits.maxElements.toNat ≤ 62) := by
  refine ⟨ofJsonText_levels, fun reload => ?_, fun few => ?_⟩
  · have sound := Schema.sound_of_check boxSchema_check
    obtain ⟨plan, rest, made⟩ :=
      exists_generate_of_decided (boxSchema_decided settings) mode sound nofun (.ofSeed 1)
    have read := reload _ _ _ _ _ boxSchema_check made
    have boxes := boxes_levels made
    rw [ofJsonText_levels] at read
    split at read
    · omega
    · cases read
  · intro schema choice source plan rest checked made
    have levels := generate_levels (Schema.sound_of_check checked) made
    rw [ofJsonText_levels, if_pos (by omega)]

theorem generated_reload_book : bookSchema.check = .ok () ∧
    ∃ plan rest, generate bookSchema ⟨.strict, 0.5, 0.5⟩ .full .uniform (.ofSeed 7) = .ok (plan, rest) ∧
      ofJsonText plan.jsonText = .ok plan := by
  have checked : bookSchema.check = .ok () := rfl
  have few : Limits.strict.maxElements.toNat ≤ 62 := by decide
  obtain ⟨plan, rest, made⟩ := exists_generate_of_decided (bookSchema_decided ⟨.strict, 0.5, 0.5⟩) .full
    (Schema.sound_of_check checked) nofun (.ofSeed 7)
  exact ⟨checked, plan, rest, made,
    (generated_reload ⟨.strict, 0.5, 0.5⟩ .full).2.mpr few _ _ _ _ _ checked made⟩

theorem generated_not_always_reload :
    boxSchema.check = .ok () ∧ boxSchema.rootElements ≠ [] ∧
    ∃ plan rest, generate boxSchema .standard .full .uniform (.ofSeed 1) = .ok (plan, rest) ∧
      ofJsonText plan.jsonText = .error (.json .malformed) := by
  have sound := Schema.sound_of_check boxSchema_check
  obtain ⟨plan, rest, made⟩ :=
    exists_generate_of_decided (boxSchema_decided .standard) .full sound nofun (.ofSeed 1)
  have boxes := boxes_levels made
  have usual : GenerationSettings.standard.limits.maxElements.toNat = 200 := rfl
  exact ⟨boxSchema_check, nofun, plan, rest, made, by rw [ofJsonText_levels, if_neg (by omega)]⟩

end Plan

end TaintScan
