import TaintScan.Proofs.Scan.Interleaving

namespace TaintScan

def Cycle.remaining : Cycle → Nat
  | fresh _ => 4
  | queued _ => 3
  | permitted _ => 2
  | verified _ => 1
  | ended _ => 0
  | broken _ => 0

def Cycle.remainingOf : List Cycle → Nat
  | [] => 0
  | c :: rest => c.remaining + remainingOf rest

def Cycle.holds : Cycle → Bool
  | permitted _ => true
  | verified _ => true
  | _ => false

namespace Board

def cancellations (b : Board) : Nat := if b.cancelled then 0 else 1

variable (b : Board) (f : Finding)

@[simp]
theorem cancellations_acquire : b.acquire.cancellations = b.cancellations := rfl

@[simp]
theorem cancellations_release : b.release.cancellations = b.cancellations := rfl

@[simp]
theorem cancellations_report : (b.report f).cancellations = b.cancellations := rfl

theorem cancellations_cancelIf (asked : Bool) :
    (b.cancelIf asked).cancellations ≤ b.cancellations := by
  unfold cancellations
  cases off : b.cancelled with
  | true => simp [off]
  | false => split <;> simp

end Board

namespace Progress

def weight : Progress → Nat × Nat
  | ready left _ _ b => (2 * left + 1, b.cancellations)
  | confirming left _ _ _ cycles b =>
    (2 * left + 2, Cycle.remainingOf cycles + b.cancellations)
  | ended _ => (0, 0)

def KeepsPermits (capacity : Nat) : Progress → Prop
  | ready _ _ _ b => b.permits = capacity
  | confirming _ _ _ _ cycles b => b.permits + cycles.countP Cycle.holds = capacity
  | ended _ => True

end Progress

namespace Cycle

variable {s : Scanner} {plan : Plan} {b : Board} {c : Cycle} {result : Cycle × Board}

theorem remainingOf_append {front back : List Cycle} :
    remainingOf (front ++ back) = remainingOf front + remainingOf back := by
  induction front with
  | nil => simp [remainingOf]
  | cons c rest ih =>
    rw [List.cons_append, remainingOf, remainingOf, ih]
    omega

theorem Taken.remaining_lt [Uri.Idna] (h : Taken s plan b c result) :
    result.1.remaining + result.2.cancellations < c.remaining + b.cancellations := by
  cases h with
  | known | unknown | withdrawn => simp [remaining]
  | admitted => simp [remaining]
  | repeated | reported => simp [remaining]
  | @failed d e result =>
    have less := b.cancellations_cancelIf (s.confirm plan d).cancels
    simp only [remaining, Board.cancellations_release]
    omega
  | @refuted d result =>
    have less := b.cancellations_cancelIf (s.confirm plan d).cancels
    simp only [remaining, Board.cancellations_release]
    omega
  | @found d f result =>
    have less := b.cancellations_cancelIf (s.confirm plan d).cancels
    simp only [remaining]
    omega

theorem Taken.permits_eq [Uri.Idna] (h : Taken s plan b c result) :
    result.2.permits + (if result.1.holds then 1 else 0) =
      b.permits + if c.holds then 1 else 0 := by
  cases h with
  | admitted free => simp [holds]; omega
  | known | unknown | withdrawn | failed | refuted | found | repeated | reported => simp [holds]

theorem holds_of_isDone (done : c.isDone = true) : c.holds = false := by
  cases c with
  | ended outcome => rfl
  | broken e => rfl
  | fresh d | queued d | permitted d | verified f => cases done

theorem canStep_of_holds (holding : c.holds = true) : c.canStep b = true := by
  cases c with
  | permitted d => rfl
  | verified f => rfl
  | fresh d | queued d | ended outcome | broken e => cases holding

theorem isDone_of_idle (idle : c.canStep b = false) (free : b.permits ≠ 0) : c.isDone = true := by
  cases c with
  | queued d => simp [canStep, free] at idle
  | ended outcome => rfl
  | broken e => rfl
  | fresh d | permitted d | verified f => cases idle

end Cycle

namespace Scanner

variable {s : Scanner} {around : Surroundings} {now next : Progress}

theorem launch_weight (left iteration : Nat) (summary : ScanSummary) (b : Board) :
    (s.launch left iteration summary b).weight.1 < 2 * (left + 1) + 1 := by
  unfold launch
  split
  · simp [Progress.weight]
  · simp only
    split
    · split <;> simp [Progress.weight]
    · simp only [Progress.weight]
      omega

theorem Moves.weight_lt [Uri.Idna] (h : s.Moves around now next) :
    Prod.Lex (· < ·) (· < ·) next.weight now.weight := by
  cases h with
  | finish => exact .left _ _ (by simp)
  | stop off => exact .left _ _ (by simp)
  | launch answer on => exact .left _ _ (launch_weight ..)
  | @cycle left iteration plan summary before after c b t answer able =>
    have less := (Cycle.step_taken (s.answeredBy t) plan able).remaining_lt
    apply Prod.Lex.right
    simp only [Cycle.remainingOf_append, Cycle.remainingOf]
    omega
  | @join left iteration plan summary cycles b done =>
    cases Cycle.tally summary cycles with
    | error e => exact .left _ _ (by simp)
    | ok counted => exact .left _ _ (by simp)
  | cancelBetween asked on => exact .right _ (by simp [Board.cancellations, on])
  | cancelWithin asked on => exact .right _ (by simp [Board.cancellations, on])

theorem moves_wellFounded [Uri.Idna] (s : Scanner) (around : Surroundings) :
    WellFounded fun next now => s.Moves around now next := by
  have measured := InvImage.wf Progress.weight (Prod.lex Nat.lt_wfRel Nat.lt_wfRel).wf
  exact Subrelation.wf (fun move => Moves.weight_lt move) measured

theorem launch_keepsPermits {left iteration : Nat} {summary : ScanSummary} {b : Board} :
    (s.launch left iteration summary b).KeepsPermits b.permits := by
  unfold launch
  split
  · trivial
  · simp only
    split
    · split
      · exact Board.cancelIf_permits ..
      · trivial
    · have none : ∀ ds : List Detection, (ds.map Cycle.fresh).countP Cycle.holds = 0 := by
        intro ds
        simp [List.countP_eq_zero, Cycle.holds]
      simp [Progress.KeepsPermits, none]

theorem Moves.keepsPermits [Uri.Idna] {capacity : Nat} (h : s.Moves around now next)
    (kept : now.KeepsPermits capacity) : next.KeepsPermits capacity := by
  cases h with
  | finish => trivial
  | stop off => trivial
  | launch answer on => exact kept ▸ launch_keepsPermits
  | @cycle left iteration plan summary before after c b t answer able =>
    have same := (Cycle.step_taken (s.answeredBy t) plan able).permits_eq
    simp only [Progress.KeepsPermits, List.countP_append, List.countP_cons] at kept ⊢
    omega
  | @join left iteration plan summary cycles b done =>
    have none : cycles.countP Cycle.holds = 0 :=
      List.countP_eq_zero.mpr fun c member => by simp [Cycle.holds_of_isDone (done c member)]
    simp only [Progress.KeepsPermits, none, Nat.add_zero] at kept
    cases Cycle.tally summary cycles with
    | error e => trivial
    | ok counted => exact kept
  | cancelBetween asked on => exact kept
  | cancelWithin asked on => exact kept

/-- A scan that has not ended goes on, when an engine answers: a cycle that waits for a permit waits
for one that has it. -/
theorem ended_or_moves [Uri.Idna] {capacity : Nat} {t : Transformer} (answer : around.answers t)
    (some : capacity ≠ 0) (kept : now.KeepsPermits capacity) :
    (∃ result, now = .ended result) ∨ ∃ next, s.Moves around now next := by
  cases now with
  | ended result => exact .inl ⟨result, rfl⟩
  | ready left iteration summary b =>
    cases left with
    | zero => exact .inr ⟨_, .finish⟩
    | succ left =>
      cases off : b.cancelled with
      | true => exact .inr ⟨_, .stop off⟩
      | false => exact .inr ⟨_, .launch answer off⟩
  | confirming left iteration plan summary cycles b =>
    right
    by_cases able : ∃ c ∈ cycles, c.canStep b = true
    · obtain ⟨c, member, able⟩ := able
      obtain ⟨before, after, rfl⟩ := List.append_of_mem member
      exact ⟨_, .cycle answer able⟩
    · have idle : ∀ c ∈ cycles, c.canStep b = false := by
        intro c member
        cases steps : c.canStep b with
        | true => exact absurd ⟨c, member, steps⟩ able
        | false => rfl
      -- A cycle with a permit could step, so all permits are free and no cycle waits for one.
      have none : cycles.countP Cycle.holds = 0 := by
        refine List.countP_eq_zero.mpr fun c member holding => ?_
        have steps := Cycle.canStep_of_holds (b := b) holding
        exact absurd (steps.symm.trans (idle c member)) (by decide)
      simp only [Progress.KeepsPermits, none, Nat.add_zero] at kept
      have free : b.permits ≠ 0 := kept ▸ some
      exact ⟨_, .join fun c member => Cycle.isDone_of_idle (idle c member) free⟩

theorem reaches_keepsPermits [Uri.Idna] {cancelled : Bool} (run : s.Reaches around (s.start cancelled) now) :
    now.KeepsPermits (max s.settings.maxConcurrentConfirmations.toNat 1) :=
  run.keeps (Progress.KeepsPermits _) (start_cases (fun _ => trivial) fun _ => rfl)
    fun _ _ move kept => move.keepsPermits kept

end Scanner

end TaintScan
