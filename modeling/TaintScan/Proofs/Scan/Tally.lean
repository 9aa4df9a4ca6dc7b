import TaintScan.Proofs.Scan.Interleaving

namespace TaintScan

namespace ScanSummary

/-- The detections whose confirmation has ended in one of three ways; cancelled ones count nowhere. -/
def settled (s : ScanSummary) : Nat := s.duplicates + s.confirmed + s.refuted

def countAll (s : ScanSummary) (outcomes : List CycleOutcome) : ScanSummary :=
  outcomes.foldl count s

variable {s : ScanSummary} {outcomes : List CycleOutcome}

theorem countAll_cons (outcome : CycleOutcome) :
    s.countAll (outcome :: outcomes) = (s.count outcome).countAll outcomes := rfl

@[simp]
theorem countAll_iterations : (s.countAll outcomes).iterations = s.iterations := by
  induction outcomes generalizing s with
  | nil => rfl
  | cons outcome rest ih =>
    rw [countAll_cons, ih]
    cases outcome <;> rfl

@[simp]
theorem countAll_failedIterations : (s.countAll outcomes).failedIterations = s.failedIterations := by
  induction outcomes generalizing s with
  | nil => rfl
  | cons outcome rest ih =>
    rw [countAll_cons, ih]
    cases outcome <;> rfl

@[simp]
theorem countAll_detections : (s.countAll outcomes).detections = s.detections := by
  induction outcomes generalizing s with
  | nil => rfl
  | cons outcome rest ih =>
    rw [countAll_cons, ih]
    cases outcome <;> rfl

theorem countAll_confirmed :
    (s.countAll outcomes).confirmed = s.confirmed + outcomes.count .confirmed := by
  induction outcomes generalizing s with
  | nil => rfl
  | cons outcome rest ih =>
    rw [countAll_cons, ih, List.count_cons]
    cases outcome with
    | confirmed => simp only [count, beq_self_eq_true, if_true]; omega
    | duplicate | refuted | cancelled => rfl

theorem countAll_settled :
    (s.countAll outcomes).settled + outcomes.count .cancelled = s.settled + outcomes.length := by
  induction outcomes generalizing s with
  | nil => rfl
  | cons outcome rest ih =>
    have later := ih (s := s.count outcome)
    rw [countAll_cons, List.count_cons, List.length_cons]
    cases outcome with
    | cancelled =>
      have same : (s.count .cancelled).settled = s.settled := rfl
      simp only [beq_self_eq_true, if_true]
      omega
    | duplicate | confirmed | refuted =>
      simp only [count, settled] at later ⊢
      simp
      omega

theorem countAll_cancelled : (s.countAll outcomes).cancelled = false ↔
    s.cancelled = false ∧ .cancelled ∉ outcomes := by
  induction outcomes generalizing s with
  | nil => simp [countAll]
  | cons outcome rest ih =>
    rw [countAll_cons, ih]
    cases outcome with
    | cancelled => simp [count, cancel]
    | duplicate | confirmed | refuted => simp [count]

end ScanSummary

namespace Cycle

variable {summary counted : ScanSummary} {cycles : List Cycle}

theorem tally_eq_ok (done : ∀ c ∈ cycles, c.isDone = true) (h : tally summary cycles = .ok counted) :
    ∃ outcomes, cycles = outcomes.map ended ∧ counted = summary.countAll outcomes := by
  induction cycles generalizing summary with
  | nil =>
    cases h
    exact ⟨[], rfl, rfl⟩
  | cons c rest ih =>
    obtain ⟨first, others⟩ := List.forall_mem_cons.mp done
    cases c with
    | ended outcome =>
      obtain ⟨outcomes, rfl, rfl⟩ := ih others h
      exact ⟨outcome :: outcomes, rfl, rfl⟩
    | broken e => cases h
    | fresh d | queued d | permitted d | verified f => cases first

theorem exists_tally (unbroken : ∀ c ∈ cycles, ∀ e, c ≠ broken e) :
    ∃ counted, tally summary cycles = .ok counted := by
  induction cycles generalizing summary with
  | nil => exact ⟨summary, rfl⟩
  | cons c rest ih =>
    obtain ⟨first, others⟩ := List.forall_mem_cons.mp unbroken
    cases c with
    | broken e => exact absurd rfl (first e)
    | fresh d | queued d | permitted d | verified f | ended outcome => exact ih others

end Cycle

end TaintScan
