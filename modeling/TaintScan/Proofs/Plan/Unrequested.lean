import TaintScan.Proofs.Plan.Expansion

namespace TaintScan

def Unrequested (rules : List ValueRule) : Prop := ∀ r ∈ rules, r.requested = none

theorem Unrequested.append {front back : List ValueRule} (first : Unrequested front)
    (others : Unrequested back) : Unrequested (front ++ back) :=
  List.forall_mem_append.mpr ⟨first, others⟩

theorem ContentRule.unrequested_valueRulesOf {content : List ContentRule}
    (each : ∀ c ∈ content, Unrequested c.valueRules) : Unrequested (valueRulesOf content) := by
  induction content with
  | nil => exact List.forall_mem_nil _
  | cons c rest ih =>
    obtain ⟨first, others⟩ := List.forall_mem_cons.mp each
    exact first.append (ih others)

namespace Plan

namespace Grow

def Ensures {α : Type} (m : Grow α) (P : α → Prop) : Prop := ∀ g a g', m g = .ok (a, g') → P a

namespace Ensures

variable {α β : Type} {m : Grow α} {P : α → Prop} {Q : β → Prop}

theorem trivial (m : Grow α) : Ensures m fun _ => True := fun _ _ _ _ => True.intro

theorem pure {a : α} (h : P a) : Ensures (Pure.pure a) P := by
  intro g b g' done
  cases done
  exact h

theorem throw (e : Error) : Ensures (MonadExcept.throw e : Grow α) P := by
  intro g b g' done
  cases done

theorem bind {f : α → Grow β} (first : Ensures m P) (next : ∀ a, P a → Ensures (f a) Q) :
    Ensures (m >>= f) Q := by
  intro g b g' done
  rw [bind_apply] at done
  obtain ⟨⟨a, between⟩, begun, ended⟩ := Outcome.bind_eq_ok.mp done
  exact next a (first g a between begun) between b g' ended

theorem behind {f : α → Grow β} (next : ∀ a, Ensures (f a) Q) : Ensures (m >>= f) Q :=
  bind (trivial m) fun a _ => next a

theorem map {f : α → β} (first : Ensures m P) (next : ∀ a, P a → Q (f a)) : Ensures (f <$> m) Q := by
  rw [← bind_pure_comp]
  exact bind first fun a h => pure (next a h)

end Ensures

end Grow

section Growing

open Grow (Ensures)

variable {schema : Schema} {settings : GenerationSettings} {mode : RawMode}
  {expand : ElementReference → Grow ContentRule}

theorem growAttributes_unrequested (attributes : List AttributeDecl) :
    Ensures (growAttributes settings attributes) fun rules => ∀ r ∈ rules, r.requested = none := by
  induction attributes with
  | nil => exact .pure nofun
  | cons a rest ih =>
    have continued : ∀ included : Bool, Ensures (if included then (do
          let id ← Grow.ruleId
          let rules ← growAttributes settings rest
          return .fresh id a.id :: rules)
        else growAttributes settings rest) fun rules => ∀ r ∈ rules, r.requested = none := by
      intro included
      split
      · refine .behind fun id => .bind ih fun rules free => .pure ?_
        exact List.forall_mem_cons.mpr ⟨rfl, free⟩
      · exact ih
    rw [growAttributes]
    split
    · exact .behind continued
    · exact .behind continued

theorem growRules_unrequested (objects : List ObjectId) :
    Ensures (growRules objects) fun rules => ∀ r ∈ rules, r.requested = none := by
  induction objects with
  | nil => exact .pure nofun
  | cons object rest ih =>
    refine .behind fun id => .bind ih fun rules free => .pure ?_
    exact List.forall_mem_cons.mpr ⟨rfl, free⟩

theorem unrequested_map {rules : List ScalarRule} (free : ∀ r ∈ rules, r.requested = none) :
    Unrequested (rules.map ScalarRule.toValueRule) := by
  intro q member
  obtain ⟨r, inside, rfl⟩ := List.mem_map.mp member
  exact free r inside

theorem growRaw_unrequested (t : ElementType) :
    Ensures (growRaw mode t) fun c => Unrequested c.valueRules :=
  .behind fun _ => .pure (List.forall_mem_singleton.mpr rfl)

theorem expandAll_unrequested (each : ∀ r, Ensures (expand r) fun c => Unrequested c.valueRules)
    (references : List ElementReference) :
    Ensures (expandAll settings expand references) fun content =>
      ∀ c ∈ content, Unrequested c.valueRules := by
  induction references with
  | nil => exact .pure nofun
  | cons r rest ih =>
    refine .behind fun room => ?_
    split
    · refine .bind (each r) fun child free => .bind ih fun others known => .pure ?_
      exact List.forall_mem_cons.mpr ⟨free, known⟩
    · exact .pure nofun

theorem growChildren_unrequested (each : ∀ r, Ensures (expand r) fun c => Unrequested c.valueRules)
    (t : ElementType) : Ensures (growChildren settings expand t) fun content =>
      ∀ c ∈ content, Unrequested c.valueRules := by
  refine .behind fun room => ?_
  split
  · exact .behind fun planned => expandAll_unrequested each planned
  · exact .pure nofun

theorem fillGaps_unrequested (t : ElementType) (gaps : List Bool) {children : List ContentRule}
    (free : ∀ c ∈ children, Unrequested c.valueRules) :
    Ensures (fillGaps mode t gaps children) fun content => ∀ c ∈ content, Unrequested c.valueRules := by
  induction gaps generalizing children with
  | nil => exact .pure nofun
  | cons gap gaps ih =>
    have first : ∀ c ∈ children.head?.toList, Unrequested c.valueRules := fun c member =>
      free c (List.mem_of_mem_head? (Option.mem_toList.mp member))
    have later : ∀ c ∈ children.tail, Unrequested c.valueRules := fun c member =>
      free c (List.mem_of_mem_tail member)
    have behind : ∀ filling, (∀ c ∈ filling, Unrequested c.valueRules) → Ensures (do
        let rest ← fillGaps mode t gaps children.tail
        return filling ++ children.head?.toList ++ rest) fun content =>
          ∀ c ∈ content, Unrequested c.valueRules := by
      intro filling known
      refine .bind (ih later) fun rest others => .pure ?_
      exact List.forall_mem_append.mpr ⟨List.forall_mem_append.mpr ⟨known, first⟩, others⟩
    rw [fillGaps]
    split
    · refine .bind (.map (growRaw_unrequested t) fun c known => ?_) behind
      exact List.forall_mem_singleton.mpr known
    · exact .bind (.pure nofun) behind

theorem growContent_unrequested (each : ∀ r, Ensures (expand r) fun c => Unrequested c.valueRules)
    (t : ElementType) : Ensures (growContent settings mode expand t) fun content =>
      ∀ c ∈ content, Unrequested c.valueRules := by
  unfold growContent
  split
  · exact .pure nofun
  · exact .behind fun id => .pure (List.forall_mem_singleton.mpr (List.forall_mem_singleton.mpr rfl))
  · exact growChildren_unrequested each t
  · unfold growMixed
    split
    · exact .bind (growRaw_unrequested t) fun raw free => .pure (List.forall_mem_singleton.mpr free)
    · refine .bind (growChildren_unrequested each t) fun children free => .behind fun gaps => ?_
      exact fillGaps_unrequested t gaps free

theorem growTag_unrequested {content : ElementType → Grow (List ContentRule)}
    (inside : ∀ t, Ensures (content t) fun rules => ∀ c ∈ rules, Unrequested c.valueRules)
    (reference : ElementReference) :
    Ensures (growTag schema settings content reference) fun e => Unrequested e.valueRules := by
  refine .behind fun _ => ?_
  split
  · exact .throw _
  · rename_i t _
    refine .behind fun id => .bind (growAttributes_unrequested _) fun attributes free => ?_
    refine .bind (inside t) fun rules known => .pure ?_
    exact (unrequested_map free).append (ContentRule.unrequested_valueRulesOf known)

theorem growElement_unrequested (budget : Nat) (reference : ElementReference) :
    Ensures (growElement schema settings mode budget reference) fun e => Unrequested e.valueRules := by
  induction budget generalizing reference with
  | zero =>
    have bare : growElement schema settings mode 0 reference =
        growTag schema settings (fun _ => Pure.pure []) reference := by
      rw [growElement]
      rfl
    rw [bare]
    exact growTag_unrequested (fun t => .pure (List.forall_mem_nil _)) reference
  | succ budget ih =>
    rw [growElement_succ]
    refine growTag_unrequested (fun t => growContent_unrequested (fun r => ?_) t) reference
    exact .map (ih r) fun e free => free

theorem grow_unrequested (choice : RootChoice) : Ensures (grow schema settings mode choice) fun p =>
    Unrequested p.valueRules ∧ p.requestedValues = .empty := by
  refine .behind fun seed => .behind fun root => ?_
  split
  · exact .throw _
  · refine .bind (growElement_unrequested _ _) fun root tree => ?_
    refine .bind (growRules_unrequested _) fun functions fs => ?_
    refine .bind (growRules_unrequested _) fun parameters ps => .pure ⟨?_, rfl⟩
    exact (tree.append (unrequested_map fs)).append (unrequested_map ps)

theorem generate_unrequested {choice : RootChoice} {source rest : Random.Source} {plan : Plan}
    (made : generate schema settings mode choice source = .ok (plan, rest)) :
    Unrequested plan.valueRules ∧ plan.requestedValues = .empty := by
  unfold generate at made
  split at made
  · rename_i p growth done
    cases made
    exact grow_unrequested choice _ _ _ done
  · cases made

end Growing

end Plan

end TaintScan
