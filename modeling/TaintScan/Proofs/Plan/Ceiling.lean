import TaintScan.Proofs.Plan.Growing

namespace TaintScan.Plan

open TaintScan.Random (Source)
open Grow (YieldsFrom bind_apply)

variable {schema : Schema} {settings : GenerationSettings} {mode : RawMode} {n : Nat}

def Grow.Agree {α : Type} (n : Nat) (one other : Grow α) : Prop := ∀ g, g.count = n → one g = other g

namespace Grow.Agree

variable {α β : Type} {broken : Prop} {one other : Grow α} {P : α → Nat → Prop}

theorem refl (m : Grow α) : Agree n m m := fun _ _ => rfl

theorem bind {f h : α → Grow β} (first : Agree n one other) (known : YieldsFrom broken n one P)
    (next : ∀ a k, P a k → Agree k (f a) (h a)) : Agree n (one >>= f) (other >>= h) := by
  intro g start
  rw [bind_apply, bind_apply, ← first g start]
  rcases known g start with ⟨a, between, done, result⟩ | ⟨-, failed⟩
  · rw [done]
    exact next a between.count result between rfl
  · rw [failed]
    rfl

theorem behind {m : Grow α} {f h : α → Grow β} (known : YieldsFrom False n m P)
    (next : ∀ a k, P a k → Agree k (f a) (h a)) : Agree n (m >>= f) (m >>= h) :=
  .bind (.refl m) known next

theorem map {f : α → β} (h : Agree n one other) : Agree n (f <$> one) (f <$> other) := by
  intro g start
  have same := h g start
  simp only [Functor.map, StateT.map, same]

theorem guarded {limits : Limits} {yes yes' no : Grow α}
    (below : n < limits.maxElements.toNat → Agree n yes yes') :
    Agree n (do if ← Grow.mayExpand limits then yes else no)
      (do if ← Grow.mayExpand limits then yes' else no) := by
  refine .behind (.mayExpand limits) fun allowed k may => ?_
  obtain ⟨rfl, rfl⟩ := may
  by_cases room : k < limits.maxElements.toNat
  · rw [Limits.allowsExpansion, if_pos (decide_eq_true room), if_pos (decide_eq_true room)]
    exact below room
  · rw [Limits.allowsExpansion, if_neg (by simpa using room), if_neg (by simpa using room)]
    exact .refl no

end Grow.Agree

open Grow (Agree)

section Children

variable {expand other : ElementReference → Grow ContentRule} {t : ElementType}

def Alike (settings : GenerationSettings) (expand other : ElementReference → Grow ContentRule)
    (n : Nat) (references : List ElementReference) : Prop :=
  ∀ r ∈ references, ∀ m, n ≤ m → m < settings.limits.maxElements.toNat → Agree m (expand r) (other r)

theorem expandAll_agree {references : List ElementReference}
    (step : Expands schema settings mode expand n references)
    (alike : Alike settings expand other n references) :
    ∀ m, n ≤ m → Agree m (expandAll settings expand references)
      (expandAll settings other references) := by
  induction references with
  | nil => exact fun m _ => .refl _
  | cons r rest ih =>
    intro m behind
    refine .guarded fun below => ?_
    refine .bind (alike r (by simp) m behind below) (step r (by simp) m behind below) ?_
    intro child between one
    obtain ⟨-, -, grown⟩ := one
    have advanced : n ≤ between := by
      have count := grown.counted
      omega
    have later := step.subset fun q => List.mem_cons_of_mem r
    have same := ih later (fun q member => alike q (List.mem_cons_of_mem r member)) between advanced
    exact .bind same (expandAll_grown later between advanced) fun others k _ => .refl _

theorem growChildren_agree (distinct : (t.elements.map ElementReference.id).Nodup)
    (step : Expands schema settings mode expand n t.elements)
    (alike : Alike settings expand other n t.elements) :
    Agree n (growChildren settings expand t) (growChildren settings other t) := by
  refine .guarded fun below => ?_
  refine .behind (.draw (arrangeChildren_arranges distinct)) fun planned between drawn => ?_
  obtain ⟨⟨subset, -⟩, rfl⟩ := drawn
  have same : Alike settings expand other between planned := fun r member => alike r (subset r member)
  exact expandAll_agree (step.subset subset) same between (Nat.le_refl _)

theorem growContent_agree (distinct : (t.elements.map ElementReference.id).Nodup)
    (step : Expands schema settings mode expand n t.elements)
    (alike : Alike settings expand other n t.elements) :
    Agree n (growContent settings mode expand t) (growContent settings mode other t) := by
  have children := growChildren_agree distinct step alike
  have known := growChildren_grown distinct step
  unfold growContent
  cases t.contentType with
  | empty => exact .refl _
  | data => exact .refl _
  | element => exact children
  | mixed =>
    change Agree n (growMixed settings mode expand t) (growMixed settings mode other t)
    unfold growMixed
    by_cases none : t.elements.isEmpty = true
    · rw [if_pos none, if_pos none]
      exact .refl _
    · rw [if_neg none, if_neg none]
      exact .bind children known fun grown k _ => .refl _

end Children

/-- Follows references down to a depth; what is done there is given. -/
def follow (schema : Schema) (settings : GenerationSettings) (mode : RawMode)
    (bottom : ElementReference → Grow ElementRule) : Nat → ElementReference → Grow ElementRule
  | 0, reference => bottom reference
  | depth + 1, reference => growTag schema settings (growContent settings mode fun r =>
      ElementRule.toContent <$> follow schema settings mode bottom depth r) reference

variable {bottom : ElementReference → Grow ElementRule}

theorem growTag_agree (sound : schema.Sound) {reference : ElementReference} {t : ElementType}
    (leads : schema.referencedType reference = .ok t)
    {one other : ElementType → Grow (List ContentRule)} {P : List ContentRule → Nat → Prop}
    (same : Agree (n + 1) (one t) (other t)) (known : YieldsFrom broken (n + 1) (one t) P) :
    Agree n (growTag schema settings one reference) (growTag schema settings other reference) := by
  have declared := sound.distinct_attributes (Schema.mem_of_elementType leads).1
  refine .behind .countElement fun _ start counted => ?_
  subst counted
  simp only [leads]
  refine .behind .ruleId fun id between unchanged => ?_
  subst unchanged
  refine .bind (.refl _) (growAttributes_bears declared fun _ _ => trivial) fun attributes k bears => ?_
  obtain ⟨-, rfl⟩ := bears
  exact .bind same known fun content k _ => .refl _

theorem growElement_agree (sound : schema.Sound) (budget depth : Nat) {reference : ElementReference}
    (member : reference ∈ schema.references) (some : 0 < budget)
    (enough : settings.limits.maxElements.toNat < budget + n) (deep : 0 < depth)
    (deeper : settings.limits.maxElements.toNat < depth + n) :
    Agree n (growElement schema settings mode budget reference)
      (follow schema settings mode bottom depth reference) := by
  induction budget generalizing n reference depth with
  | zero => omega
  | succ budget ih =>
    obtain ⟨depth, rfl⟩ : ∃ d, depth = d + 1 := ⟨depth - 1, by omega⟩
    obtain ⟨t, leads⟩ := sound.linked reference member
    have owner := (Schema.mem_of_elementType leads).1
    have distinct := sound.distinct_references owner
    have step : Expands schema settings mode
        (fun r => ElementRule.toContent <$> growElement schema settings mode budget r)
        (n + 1) t.elements := fun r child m behind below =>
      expands_of_grownElement below (growElement_grown sound budget
        (mem_references_of_elementType leads r child) (by omega) (by omega))
    have alike : Alike settings
        (fun r => ElementRule.toContent <$> growElement schema settings mode budget r)
        (fun r => ElementRule.toContent <$> follow schema settings mode bottom depth r)
        (n + 1) t.elements := fun r child m behind below =>
      .map (ih depth (mem_references_of_elementType leads r child) (by omega) (by omega) (by omega)
        (by omega))
    rw [growElement_succ, follow]
    exact growTag_agree sound leads (growContent_agree distinct step alike)
      (growContent_grown owner distinct step)

theorem growWith_follow (sound : schema.Sound) (choice : RootChoice) (source : Source) {depth : Nat}
    (deep : settings.limits.maxElements.toNat < depth) :
    growWith schema (follow schema settings mode bottom depth) choice ⟨source, 0⟩ =
      grow schema settings mode choice ⟨source, 0⟩ := by
  rw [grow_eq_growWith]
  rcases growWith_cases schema choice ⟨source, 0⟩ with ⟨_, -, failed⟩ | ⟨root, member, seed, g, start, same⟩
  · rw [failed, failed]
  · have inside : root ∈ schema.references := List.mem_append.mpr (.inl member)
    have budget : 0 < settings.limits.maxElements.toNat + 1 := by omega
    have known : YieldsFrom (settings.Undecided schema) 0 (growElement schema settings mode _ root) _ :=
      growElement_grown sound _ inside budget (by omega)
    have tags : Agree 0 (growElement schema settings mode _ root)
        (follow schema settings mode bottom depth root) :=
      growElement_agree sound _ depth inside budget (by omega) (by omega) (by omega)
    have plans := tags.bind known fun tree k _ => .refl (do
      let functions ← growRules (schema.functions.map FunctionDecl.id)
      let parameters ← growRules (schema.parameters.map ParameterDecl.id)
      return (⟨schema.stylesheet, schema.version, seed, tree, functions, parameters, .empty⟩ : Plan))
    rw [same, same]
    exact (plans g start).symm

theorem pick_none_of_error (sound : schema.Sound) {choice : RootChoice} {source : Source} {e : Error}
    (failed : generate schema settings mode choice source = .error e) :
    (∃ left, (choice.pick schema.rootElements left).1 = none) ∨
      BreaksUndecided schema settings mode choice source := by
  rcases generate_cases settings mode sound choice source with ⟨left, none, -⟩ | ⟨_, _, made⟩ | broken
  · exact .inl ⟨left, none⟩
  · rw [made] at failed
    cases failed
  · exact .inr broken

/-- On a checked schema, however cyclic, growing never follows references to a depth above the
ceiling. It fails only without a root or for want of a probability that is a number, and the running
count of element rules is the number of them in the plan, within the ceiling unless the root alone is
above it. -/
theorem generate_bounded (settings : GenerationSettings) (mode : RawMode)
    (checked : schema.check = .ok ()) :
    (∀ choice source bottom depth, settings.limits.maxElements.toNat < depth →
      growWith schema (follow schema settings mode bottom depth) choice ⟨source, 0⟩ =
        grow schema settings mode choice ⟨source, 0⟩) ∧
    (∀ choice source e, generate schema settings mode choice source = .error e →
      (∃ left, (choice.pick schema.rootElements left).1 = none) ∨
        BreaksUndecided schema settings mode choice source) ∧
    (∀ source e, generate schema settings mode .uniform source = .error e →
      schema.rootElements = [] ∨ BreaksUndecided schema settings mode .uniform source) ∧
    ∀ choice source plan rest, generate schema settings mode choice source = .ok (plan, rest) →
      ∃ growth, grow schema settings mode choice ⟨source, 0⟩ = .ok (plan, growth) ∧
        plan.elementCount = growth.count ∧
        plan.elementCount ≤ max 1 settings.limits.maxElements.toNat := by
  have sound := Schema.sound_of_check checked
  refine ⟨fun choice source bottom depth deep => growWith_follow sound choice source deep,
    fun choice source e failed => pick_none_of_error sound failed, fun source e failed => ?_,
    fun choice source plan rest made => ?_⟩
  · refine (pick_none_of_error sound failed).imp_left fun ⟨left, unpicked⟩ => ?_
    by_contra rooted
    obtain ⟨root, -, picked⟩ := Random.choose?_mem rooted left
    exact absurd (unpicked.symm.trans picked) nofun
  · obtain ⟨growth, grown, facts⟩ := generate_grown sound made
    have count := facts.counted
    have bound := facts.bounded
    exact ⟨growth, grown, count, by omega⟩

theorem generate_bounded_book : bookSchema.check = .ok () ∧
    growWith bookSchema (follow bookSchema .standard .full (fun _ => throw (.unknownRule .nil)) 201)
      .uniform ⟨.ofSeed 7, 0⟩ = grow bookSchema .standard .full .uniform ⟨.ofSeed 7, 0⟩ ∧
    ∃ plan rest, generate bookSchema .standard .full .uniform (.ofSeed 7) = .ok (plan, rest) ∧
      plan.elementCount ≤ 200 := by
  have checked : bookSchema.check = .ok () := rfl
  obtain ⟨follows, -, rooted, bounded⟩ := generate_bounded .standard .full checked
  refine ⟨checked, follows .uniform (.ofSeed 7) _ 201 (by decide), ?_⟩
  cases made : generate bookSchema .standard .full .uniform (.ofSeed 7) with
  | error e =>
    rcases rooted _ e made with none | broken
    · exact absurd none (by decide)
    · exact absurd broken.1 (bookSchema_decided _)
  | ok result =>
    obtain ⟨plan, rest⟩ := result
    obtain ⟨_, -, -, ceiling⟩ := bounded .uniform _ plan rest made
    exact ⟨plan, rest, rfl, ceiling⟩

end TaintScan.Plan
