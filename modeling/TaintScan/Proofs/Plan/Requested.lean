import TaintScan.Proofs.Plan.Editing
import TaintScan.Proofs.Plan.Persistence

namespace TaintScan

namespace ValueRule.IsLast

variable {id : RuleId} {rules : List ValueRule} {r : ValueRule}

theorem prepend (h : IsLast id rules r) (front : List ValueRule) :
    IsLast id (front ++ rules) r := by
  rcases h with ⟨earlier, later, split, same, others⟩
  exact ⟨front ++ earlier, later, by rw [split, List.append_assoc], same, others⟩

theorem cons (h : IsLast id rules r) (q : ValueRule) : IsLast id (q :: rules) r := h.prepend [q]

end ValueRule.IsLast

namespace PinsAt

variable {id : RuleId} {value : String} {earlier later rules pinned : List ValueRule}
  {rule last : ValueRule}

theorem isLast (h : PinsAt id value earlier rule later rules pinned)
    (alone : ∀ r ∈ later, r.id ≠ id) :
    ValueRule.IsLast id rules rule ∧ ValueRule.IsLast id pinned (rule.pinned value) :=
  ⟨⟨earlier, later, h.before, h.same, alone⟩, ⟨earlier, later, h.after, h.same, alone⟩⟩

theorem isLast_later (h : PinsAt id value earlier rule later rules pinned)
    (behind : ValueRule.IsLast id later last) :
    ValueRule.IsLast id rules last ∧ ValueRule.IsLast id pinned last := by
  rw [h.before, h.after]
  exact ⟨(behind.cons rule).prepend earlier, (behind.cons (rule.pinned value)).prepend earlier⟩

theorem find?_reverse_other (h : PinsAt id value earlier rule later rules pinned) {other : RuleId}
    (differs : other ≠ id) :
    pinned.reverse.find? (fun r => r.id == other) =
      rules.reverse.find? (fun r => r.id == other) := by
  have before : rule.id ≠ other := fun same => differs (same.symm.trans h.same)
  have after : (rule.pinned value).id ≠ other := before
  simp [h.before, h.after, List.find?_append, before, after]

end PinsAt

namespace Plan

variable {p p' : Plan} {id : RuleId} {object : ObjectId} {value : String} {r : ValueRule}

theorem requestedForRule?_of_isLast (last : r.IsLast id p.valueRules) :
    p.requestedForRule? id = r.requested := by
  rw [requestedForRule?, lastRule?_eq_some_iff.mpr last]
  rfl

theorem requestedForObject?_of_modify (edited : p.modify id object value = .ok p')
    (other : ObjectId) : p'.requestedForObject? other =
      if other = object then some value else p.requestedForObject? other := by
  rcases modify_eq_ok edited with ⟨-, pinned, -, rfl⟩
  exact OrderedMap.get?_insert p.requestedValues object other value

theorem target_of_modify (edited : p.modify id object value = .ok p')
    (last : r.IsLast id p.valueRules) : r.target = object := by
  rcases modify_eq_ok edited with ⟨⟨decisive, found, aimed⟩, -⟩
  rw [lastRule?_eq_some_iff.mpr last] at found
  cases found
  exact aimed

/-- After an edit the value is found by its object, and the look-ups by any other object or
identity answer as before. By its identity the value is found, and the pinned rule targets the
object, when no rule behind the pinned one has the identity; else the last such rule answers, with
the request it had before, and it is that rule that targets the object. -/
theorem modify_found (edited : p.modify id object value = .ok p') :
    (∀ other, p'.requestedForObject? other =
      if other = object then some value else p.requestedForObject? other) ∧
    (∀ other, other ≠ id → p'.requestedForRule? other = p.requestedForRule? other) ∧
    ∃ earlier rule later, PinsAt id value earlier rule later p.valueRules p'.valueRules ∧
      ((∀ r ∈ later, r.id ≠ id) → rule.target = object ∧ p'.requestedForRule? id = some value) ∧
      ∀ last, ValueRule.IsLast id later last →
        last.target = object ∧ p'.requestedForRule? id = last.requested := by
  rcases (modify_eq_ok_iff.mp edited).2.rules with ⟨earlier, rule, later, pins⟩
  refine ⟨requestedForObject?_of_modify edited, fun other differs => ?_,
    earlier, rule, later, pins, fun alone => ?_, fun last behind => ?_⟩
  · have same := pins.find?_reverse_other differs
    rw [requestedForRule?, requestedForRule?, lastRule?, lastRule?, same]
  · have ends := pins.isLast alone
    exact ⟨target_of_modify edited ends.1, requestedForRule?_of_isLast ends.2⟩
  · have ends := pins.isLast_later behind
    exact ⟨target_of_modify edited ends.1, requestedForRule?_of_isLast ends.2⟩

section Trial

open Document (trialPlan trialRule trialObject)

theorem modify_found_shared_identity :
    ∃ p', trialPlan.modify (trialRule 11) (trialObject 1) "new" = .ok p' ∧
      (∀ other, p'.requestedForObject? other =
        if other = trialObject 1 then some "new" else trialPlan.requestedForObject? other) ∧
      (∀ other, other ≠ trialRule 11 →
        p'.requestedForRule? other = trialPlan.requestedForRule? other) ∧
      ∃ earlier rule later,
        PinsAt (trialRule 11) "new" earlier rule later trialPlan.valueRules p'.valueRules ∧
        ((∀ r ∈ later, r.id ≠ trialRule 11) →
          rule.target = trialObject 1 ∧ p'.requestedForRule? (trialRule 11) = some "new") ∧
        ∀ last, ValueRule.IsLast (trialRule 11) later last →
          last.target = trialObject 1 ∧ p'.requestedForRule? (trialRule 11) = last.requested :=
  ⟨_, rfl, modify_found (p := trialPlan) rfl⟩

theorem pinned_not_always_found :
    ¬ ∀ (text : String) (p p' : Plan) (id : RuleId) (object : ObjectId) (value : String),
      ofJsonText text = .ok p → p.modify id object value = .ok p' →
        p'.requestedForRule? id = some value ∧ p'.requestedForObject? object = some value ∧
        ∀ earlier rule later, PinsAt id value earlier rule later p.valueRules p'.valueRules →
          rule.target = object := by
  intro claimed
  have fits : Json.nesting trialPlan.jsonText ≤ Json.nestingLimit := by
    rw [jsonText, Json.nesting_pretty]
    decide +kernel
  have read : ofJsonText trialPlan.jsonText = .ok trialPlan := by rw [ofJsonText_eq, if_pos fits]
  have found := claimed _ _ _ (trialRule 11) (trialObject 1) "new" read rfl
  exact absurd found.1 (by decide)

end Trial

end Plan

end TaintScan
