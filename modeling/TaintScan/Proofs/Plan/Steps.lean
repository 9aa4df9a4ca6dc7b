import TaintScan.Plan.Generation
import TaintScan.Proofs.Random.Trial

namespace TaintScan.Plan.Grow

open TaintScan.Random (Always Draw Gives Settles Trial)

/-- From a count of element rules on a step succeeds, and its result and the count behind it have a
property; or it is expected to break down, and does, on a probability that is no number. -/
def YieldsFrom {α : Type} (broken : Prop) (n : Nat) (m : Grow α) (P : α → Nat → Prop) : Prop :=
  ∀ g, g.count = n → (∃ a g', m g = .ok (a, g') ∧ P a g'.count) ∨
    broken ∧ m g = .error (.breakdown .probability)

variable {α β : Type} {broken : Prop} {n : Nat} {m : Grow α}

theorem bind_apply (m : Grow α) (f : α → Grow β) (g : Growth) :
    (m >>= f) g = m g >>= fun r => f r.1 r.2 := rfl

namespace YieldsFrom

variable {P Q : α → Nat → Prop} {R : β → Nat → Prop}

theorem pure {a : α} (h : P a n) : YieldsFrom broken n (Pure.pure a) P :=
  fun g start => .inl ⟨a, g, rfl, start ▸ h⟩

theorem bind {f : α → Grow β} (first : YieldsFrom broken n m P)
    (next : ∀ a k, P a k → YieldsFrom broken k (f a) R) : YieldsFrom broken n (m >>= f) R := by
  intro g start
  rcases first g start with ⟨a, between, done, h⟩ | ⟨expected, failed⟩
  · have opened : (m >>= f) g = f a between := by
      rw [bind_apply, done]
      rfl
    rw [opened]
    exact next a between.count h between rfl
  · refine .inr ⟨expected, ?_⟩
    rw [bind_apply, failed]
    rfl

theorem mono (h : YieldsFrom broken n m P) (weaker : ∀ a k, P a k → Q a k) : YieldsFrom broken n m Q := by
  intro g start
  rcases h g start with ⟨a, final, done, result⟩ | failed
  · exact .inl ⟨a, final, done, weaker a final.count result⟩
  · exact .inr failed

theorem map {f : α → β} (first : YieldsFrom broken n m P) (next : ∀ a k, P a k → R (f a) k) :
    YieldsFrom broken n (f <$> m) R := by
  rw [← bind_pure_comp]
  exact bind first fun a k h => pure (next a k h)

theorem draw {d : Draw α} {S : α → Prop} (h : Always d S) :
    YieldsFrom broken n (Grow.draw d) fun a k => S a ∧ k = n :=
  fun g start => .inl ⟨(d g.source).1, _, rfl, h g.source, start⟩

theorem attempt {d : Trial α} {S : α → Prop}
    (h : Gives d S fun cause => cause = .probability ∧ broken) :
    YieldsFrom broken n (Grow.attempt d) fun a k => S a ∧ k = n := by
  intro g start
  have known : Settles S (fun cause => cause = .probability ∧ broken) (d g.source).1 := h g.source
  rw [Grow.attempt]
  revert known
  obtain ⟨result, rest⟩ := d g.source
  cases result with
  | ok a => exact fun known => .inl ⟨a, _, rfl, known, start⟩
  | error cause =>
    rintro ⟨rfl, expected⟩
    exact .inr ⟨expected, rfl⟩

theorem ruleId : YieldsFrom broken n Grow.ruleId fun _ k => k = n :=
  (draw (.trivial _)).mono fun _ _ h => h.2

theorem countElement : YieldsFrom broken n Grow.countElement fun _ k => k = n + 1 :=
  fun _ start => .inl ⟨(), _, rfl, congrArg (· + 1) start⟩

theorem mayExpand (limits : Limits) :
    YieldsFrom broken n (Grow.mayExpand limits) fun may k => may = limits.allowsExpansion n ∧ k = n :=
  fun g start => .inl ⟨_, g, rfl, by rw [start], start⟩

theorem guarded {limits : Limits} {yes no : Grow α}
    (below : n < limits.maxElements.toNat → YieldsFrom broken n yes P)
    (above : ¬ n < limits.maxElements.toNat → YieldsFrom broken n no P) :
    YieldsFrom broken n (do if ← Grow.mayExpand limits then yes else no) P := by
  refine .bind (.mayExpand limits) fun allowed k may => ?_
  obtain ⟨rfl, rfl⟩ := may
  by_cases room : k < limits.maxElements.toNat
  · rw [Limits.allowsExpansion, if_pos (decide_eq_true room)]
    exact below room
  · rw [Limits.allowsExpansion, if_neg (by simpa using room)]
    exact above room

end YieldsFrom

/-- Wherever it starts, a step succeeds with a result that has a property, unless it is expected to
break down. -/
def Yields {α : Type} (broken : Prop) (m : Grow α) (P : α → Prop) : Prop :=
  ∀ n, YieldsFrom broken n m fun a _ => P a

namespace Yields

variable {P : α → Prop} {Q : β → Prop}

theorem pure {a : α} (h : P a) : Yields broken (Pure.pure a) P := fun _ => .pure h

theorem bind {f : α → Grow β} (first : Yields broken m P) (next : ∀ a, P a → Yields broken (f a) Q) :
    Yields broken (m >>= f) Q := fun n => .bind (first n) fun a k h => next a h k

theorem draw {d : Draw α} (h : Always d P) : Yields broken (Grow.draw d) P :=
  fun _ => .mono (.draw h) fun _ _ drawn => drawn.1

theorem ruleId : Yields broken Grow.ruleId fun _ => True := .draw (.trivial _)

theorem countElement : Yields broken Grow.countElement fun _ => True :=
  fun _ => .mono .countElement fun _ _ _ => trivial

end Yields

end TaintScan.Plan.Grow
