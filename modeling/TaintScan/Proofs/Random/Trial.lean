import TaintScan.Proofs.Random.Choice

namespace TaintScan.Random

open Float.Model (UnpackedFloat)

variable {α β : Type}

def Settles (P : α → Prop) (broken : Breakdown → Prop) : Except Breakdown α → Prop
  | .ok a => P a
  | .error cause => broken cause

def Gives (d : Trial α) (P : α → Prop) (broken : Breakdown → Prop) : Prop :=
  Always d.run (Settles P broken)

theorem trial_bind_apply (d : Trial α) (f : α → Trial β) (source : Source) :
    (d >>= f) source = match d source with
      | (.ok a, rest) => f a rest
      | (.error cause, rest) => (.error cause, rest) := by
  have opened : (d >>= f) source = match (d source).1 with
      | .ok a => f a (d source).2
      | .error cause => (.error cause, (d source).2) := by
    change (ExceptT.bindCont f (d source).1) (d source).2 = _
    cases (d source).1 <;> rfl
  rw [opened]
  obtain ⟨result, rest⟩ := d source
  cases result <;> rfl

theorem trial_map_apply (f : α → β) (d : Trial α) (source : Source) :
    ((f <$> d) source).1 = (d source).1.map f := by
  rw [← bind_pure_comp, trial_bind_apply]
  obtain ⟨result, rest⟩ := d source
  cases result <;> rfl

namespace Gives

variable {d : Trial α} {P R : α → Prop} {Q : β → Prop} {broken wider : Breakdown → Prop}

theorem pure {a : α} (h : P a) : Gives (Pure.pure a) P broken := fun _ => h

theorem throw {cause : Breakdown} (h : broken cause) :
    Gives (MonadExcept.throw cause : Trial α) P broken := fun _ => h

theorem lift {d : Draw α} (h : Always d P) : Gives (liftM d) P broken := fun source => h source

theorem bind {f : α → Trial β} (first : Gives d P broken)
    (next : ∀ a, P a → Gives (f a) Q broken) : Gives (d >>= f) Q broken := by
  intro source
  have known : Settles P broken (d source).1 := first source
  change Settles Q broken ((d >>= f) source).1
  rw [trial_bind_apply]
  revert known
  obtain ⟨result, rest⟩ := d source
  cases result with
  | ok a => exact fun known => next a known rest
  | error cause => exact id

theorem map {f : α → β} (first : Gives d P broken) (next : ∀ a, P a → Q (f a)) :
    Gives (f <$> d) Q broken := by
  rw [← bind_pure_comp]
  exact bind first fun a h => pure (next a h)

theorem mono (h : Gives d P broken) (weaker : ∀ a, P a → R a)
    (wide : ∀ cause, broken cause → wider cause) : Gives d R wider := by
  intro source
  have known : Settles P broken (d source).1 := h source
  change Settles R wider (d source).1
  cases given : (d source).1 with
  | ok a => exact weaker a (by rwa [given] at known)
  | error cause => exact wide cause (by rwa [given] at known)

theorem and (h : Gives d P broken) (h' : Gives d R broken) : Gives d (fun a => P a ∧ R a) broken := by
  intro source
  have one : Settles P broken (d source).1 := h source
  have other : Settles R broken (d source).1 := h' source
  change Settles (fun a => P a ∧ R a) broken (d source).1
  cases given : (d source).1 with
  | ok a =>
    rw [given] at one other
    exact ⟨one, other⟩
  | error cause => rwa [given] at one

theorem of_eq_ok (h : Gives d P broken) {source : Source} {a : α} (given : (d source).1 = .ok a) :
    P a := by
  have known : Settles P broken (d source).1 := h source
  rwa [given] at known

theorem of_eq_error (h : Gives d P broken) {source : Source} {cause : Breakdown}
    (failed : (d source).1 = .error cause) : broken cause := by
  have known : Settles P broken (d source).1 := h source
  rwa [failed] at known

theorem eq_error_iff {reason : Breakdown} {given : Prop}
    (h : Gives d (fun _ => ¬ given) fun cause => cause = reason ∧ given) {source : Source}
    {cause : Breakdown} : (d source).1 = .error cause ↔ cause = reason ∧ given := by
  refine ⟨h.of_eq_error, fun ⟨same, this⟩ => ?_⟩
  cases result : (d source).1 with
  | ok a => exact absurd this (h.of_eq_ok result)
  | error other => rw [same, (h.of_eq_error result).1]

end Gives

def Ensures (d : Trial α) (P : α → Prop) : Prop := Gives d P fun _ => True

theorem Gives.ensures {d : Trial α} {P : α → Prop} {broken : Breakdown → Prop}
    (h : Gives d P broken) : Ensures d P := h.mono (fun _ => id) fun _ _ => trivial

theorem times_gives {d : Trial α} {P : α → Prop} {broken : Breakdown → Prop}
    (each : Gives d P broken) (n : Nat) :
    Gives (times n d) (fun results => results.length = n ∧ ∀ a ∈ results, P a) broken := by
  induction n with
  | zero => exact .pure ⟨rfl, by simp⟩
  | succ n ih =>
    refine .bind each fun a this => .bind ih fun others known => .pure ?_
    exact ⟨congrArg (· + 1) known.1, List.forall_mem_cons.mpr ⟨this, known.2⟩⟩

theorem isNaN_of_compare {a b : UnpackedFloat} {o : Ordering} (h : a.compare b = some o) :
    a.isNaN = false ∧ b.isNaN = false := by
  have left : UnpackedFloat.notANumber.compare b = none := by cases b <;> rfl
  have right : a.compare .notANumber = none := by cases a <;> rfl
  constructor
  · cases a with
    | notANumber => rw [left] at h; cases h
    | _ => rfl
  · cases b with
    | notANumber => rw [right] at h; cases h
    | _ => rfl

theorem isNaN_of_lt {a b : Float} (h : a < b) : a.isNaN = false ∧ b.isNaN = false := by
  have less : (a.toModel.unpack.compare b.toModel.unpack == some .lt) = true := of_decide_eq_true h
  exact isNaN_of_compare (eq_of_beq less)

theorem isNaN_of_le {a b : Float} (h : a ≤ b) : a.isNaN = false ∧ b.isNaN = false := by
  have ordered : (a.toModel.unpack.compare b.toModel.unpack).any (·.isLE) = true :=
    of_decide_eq_true h
  obtain ⟨o, known, -⟩ := (Option.any_eq_true _ _).mp ordered
  exact isNaN_of_compare known

theorem isNaN_clampProbability (p : Float) : (clampProbability p).isNaN = p.isNaN := by
  unfold clampProbability
  split
  · rename_i low
    exact (isNaN_of_lt low).1 ▸ rfl
  · split
    · rename_i high
      exact (isNaN_of_lt high).2 ▸ rfl
    · rfl

theorem chance_gives (p : Float) : Gives (chance p) (fun _ => ¬ p.isNaN = true)
    fun cause => cause = .probability ∧ p.isNaN = true := by
  simp only [chance, isNaN_clampProbability]
  by_cases odd : p.isNaN = true
  · rw [if_pos odd]
    exact .throw ⟨rfl, odd⟩
  · rw [if_neg odd]
    split
    · exact .pure odd
    · exact .bind (.lift (.trivial _)) fun _ _ => .pure odd

end TaintScan.Random
