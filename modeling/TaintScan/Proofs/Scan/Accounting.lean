import Mathlib.Data.List.Nodup
import TaintScan.Proofs.Scan.Completion

namespace TaintScan

def Cycle.isConfirmed : Cycle → Bool
  | ended .confirmed => true
  | _ => false

/-- The counters agree with the board while some detections wait for their end to be counted and
some findings, reported by now, wait to be counted too. -/
structure ScanSummary.Agrees (s : ScanSummary) (b : Board) (waiting uncounted : Nat) : Prop where
  distinct : (b.findings.map Finding.reportKey).Nodup
  confirmed : s.confirmed + uncounted = b.findings.length
  settled : s.settled + waiting ≤ s.detections
  exact : s.cancelled = false → s.settled + waiting = s.detections
  failed : s.failedIterations ≤ s.iterations

/-- The counters of a scan agree with its board, and with the number of its iterations. -/
def Progress.Accounts (total : Nat) : Progress → Prop
  | ready left iteration summary b =>
    summary.Agrees b 0 0 ∧ summary.iterations = iteration ∧ iteration + left = total
  | confirming left iteration _ summary cycles b =>
    summary.Agrees b cycles.length (cycles.countP Cycle.isConfirmed) ∧
      summary.iterations = iteration + 1 ∧ iteration + 1 + left = total
  | ended result => ∀ summary, result.summary = .ok summary →
    summary.Agrees result.board 0 0 ∧ summary.iterations ≤ total ∧
      (summary.cancelled = false → summary.iterations = total)

namespace ScanSummary.Agrees

variable {s : ScanSummary} {b b' : Board} {waiting uncounted : Nat}

theorem board (h : s.Agrees b waiting uncounted) (same : b'.findings = b.findings) :
    s.Agrees b' waiting uncounted :=
  ⟨same ▸ h.distinct, same ▸ h.confirmed, h.settled, h.exact, h.failed⟩

theorem cancel (h : s.Agrees b waiting uncounted) : s.cancel.Agrees b waiting uncounted := by
  refine ⟨h.distinct, h.confirmed, h.settled, ?_, h.failed⟩
  intro on
  cases on

theorem fail (h : s.Agrees b waiting uncounted) : s.begin.fail.Agrees b waiting uncounted :=
  ⟨h.distinct, h.confirmed, h.settled, h.exact, Nat.succ_le_succ h.failed⟩

theorem detect (h : s.Agrees b 0 0) (n : Nat) : (s.begin.detect n).Agrees b n 0 := by
  have within := h.settled
  refine ⟨h.distinct, h.confirmed, ?_, ?_, Nat.le_succ_of_le h.failed⟩
  · show s.settled + n ≤ s.detections + n
    omega
  · intro on
    have all := h.exact on
    show s.settled + n = s.detections + n
    omega

theorem countAll {outcomes : List CycleOutcome}
    (h : s.Agrees b outcomes.length (outcomes.count .confirmed)) :
    (s.countAll outcomes).Agrees b 0 0 := by
  have counted : (s.countAll outcomes).settled + _ = _ := countAll_settled
  have confirmed : (s.countAll outcomes).confirmed = _ := countAll_confirmed
  have within := h.settled
  refine ⟨h.distinct, ?_, ?_, ?_, by simpa using h.failed⟩
  · have found := h.confirmed
    omega
  · rw [countAll_detections]
    omega
  · intro on
    obtain ⟨before, none⟩ := countAll_cancelled.mp on
    have all := h.exact before
    have zero := List.count_eq_zero.mpr none
    rw [countAll_detections]
    omega

end ScanSummary.Agrees

namespace Cycle

variable {s : Scanner} {plan : Plan} {b : Board} {c : Cycle} {result : Cycle × Board}

theorem Taken.distinct [Uri.Idna] (h : Taken s plan b c result)
    (distinct : (b.findings.map Finding.reportKey).Nodup) :
    (result.2.findings.map Finding.reportKey).Nodup := by
  cases h with
  | known | unknown | withdrawn | admitted | failed | refuted | found | repeated => exact distinct
  | @reported f unseen =>
    -- The key is looked up and added in one step, so no other cycle comes between.
    have fresh : f.reportKey ∉ b.findings.map Finding.reportKey := by
      rw [← Board.isReported_iff, unseen]
      decide
    simp only [Board.release_findings, Board.report_findings, List.map_append, List.map_singleton]
    rw [← List.concat_eq_append]
    exact distinct.concat fresh

theorem Taken.findings_length [Uri.Idna] (h : Taken s plan b c result) :
    result.2.findings.length + (if c.isConfirmed then 1 else 0) =
      b.findings.length + if result.1.isConfirmed then 1 else 0 := by
  cases h with
  | known | unknown | withdrawn | admitted | failed | refuted | found | repeated | reported =>
    simp [isConfirmed]

theorem countP_isConfirmed (outcomes : List CycleOutcome) :
    (outcomes.map ended).countP isConfirmed = outcomes.count .confirmed := by
  rw [List.countP_map, List.count]
  apply List.countP_congr
  intro outcome _
  cases outcome <;> decide

theorem countP_isConfirmed_fresh (ds : List Detection) :
    (ds.map fresh).countP isConfirmed = 0 := by
  simp [List.countP_eq_zero, isConfirmed]

end Cycle

namespace Scanner

variable {s : Scanner} {around : Surroundings} {now next : Progress} {total : Nat}

theorem launch_accounts {left iteration : Nat} {summary : ScanSummary} {b : Board}
    (kept : (Progress.ready (left + 1) iteration summary b).Accounts total) :
    (s.launch left iteration summary b).Accounts total := by
  obtain ⟨agrees, counted, within⟩ := kept
  have begun : summary.iterations + 1 = iteration + 1 := by rw [counted]
  have rest : iteration + 1 + left = total := by omega
  unfold launch
  split
  · intro counts failed
    cases failed
  · simp only
    split
    · split
      · exact ⟨agrees.fail.board rfl, begun, rest⟩
      · intro counts failed
        cases failed
    · rename_i run ran
      refine ⟨?_, begun, rest⟩
      rw [Cycle.countP_isConfirmed_fresh, List.length_map]
      exact (agrees.detect _).board rfl

theorem Moves.accounts [Uri.Idna] (h : s.Moves around now next) (kept : now.Accounts total) :
    next.Accounts total := by
  cases h with
  | finish =>
    obtain ⟨agrees, counted, within⟩ := kept
    intro summary done
    cases done
    exact ⟨agrees, by omega, fun _ => by omega⟩
  | @stop left iteration summary b off =>
    obtain ⟨agrees, counted, within⟩ := kept
    intro counts done
    cases done
    have bounded : summary.iterations ≤ total := by omega
    exact ⟨agrees.cancel, bounded, fun on => by cases on⟩
  | launch answer on => exact launch_accounts kept
  | @cycle left iteration plan summary before after c b t answer able =>
    obtain ⟨agrees, counted, within⟩ := kept
    have taken := Cycle.step_taken (s.answeredBy t) plan able
    have found := taken.findings_length
    refine ⟨⟨taken.distinct agrees.distinct, ?_, ?_, ?_, agrees.failed⟩, counted, within⟩
    · have before := agrees.confirmed
      simp only [List.countP_append, List.countP_cons] at before ⊢
      omega
    · have before := agrees.settled
      simp only [List.length_append, List.length_cons] at before ⊢
      exact before
    · have before := agrees.exact
      simp only [List.length_append, List.length_cons] at before ⊢
      exact before
  | @join left iteration plan summary cycles b done =>
    obtain ⟨agrees, counted, within⟩ := kept
    cases tallied : Cycle.tally summary cycles with
    | error e =>
      intro counts failed
      cases failed
    | ok counts =>
      obtain ⟨outcomes, rfl, rfl⟩ := Cycle.tally_eq_ok done tallied
      rw [Cycle.countP_isConfirmed, List.length_map] at agrees
      exact ⟨agrees.countAll, by simpa using counted, within⟩
  | cancelBetween asked on => exact ⟨kept.1.board rfl, kept.2⟩
  | cancelWithin asked on => exact ⟨kept.1.board rfl, kept.2⟩

theorem start_accounts (s : Scanner) (cancelled : Bool) :
    (s.start cancelled).Accounts s.settings.iterations.toNat :=
  start_cases (fun _ _ failed => nomatch failed) fun _ =>
    ⟨⟨List.nodup_nil, rfl, Nat.le_refl 0, fun _ => rfl, Nat.le_refl 0⟩, rfl, Nat.zero_add _⟩

/-- The scan is one of the runs of its steps. Whatever the run, no two findings are reported for one
rule and object, and each detection is counted once: as a duplicate, confirmed or refuted, or not at
all when the scan is cancelled. -/
theorem scan_accounts [Uri.Idna] (s : Scanner) (cancelled : Bool) :
    s.Reaches .hostile (s.start cancelled) (.ended (s.scan cancelled)) ∧
    ∀ result summary, s.Reaches .hostile (s.start cancelled) (.ended result) →
      result.summary = .ok summary →
      (result.board.findings.map Finding.reportKey).Nodup ∧
      summary.confirmed = result.board.findings.length ∧
      summary.duplicates + summary.confirmed + summary.refuted ≤ summary.detections ∧
      (summary.cancelled = false →
        summary.duplicates + summary.confirmed + summary.refuted = summary.detections) ∧
      summary.failedIterations ≤ summary.iterations ∧
      summary.iterations ≤ s.settings.iterations.toNat ∧
      (summary.cancelled = false → summary.iterations = s.settings.iterations.toNat) := by
  refine ⟨(scan_reached s cancelled).hostile, fun result summary run done => ?_⟩
  have kept : (Progress.ended result).Accounts s.settings.iterations.toNat :=
    run.keeps (Progress.Accounts _) (start_accounts s cancelled) fun _ _ move before => move.accounts before
  obtain ⟨agrees, within, all⟩ := kept summary done
  exact ⟨agrees.distinct, agrees.confirmed, agrees.settled, agrees.exact, agrees.failed, within, all⟩

attribute [local instance] Uri.Idna.plain

theorem scan_accounts_naming : ∃ summary f, naming.scan false = ⟨.ok summary, ⟨[f], 4, false⟩⟩ ∧
    summary.duplicates = 1 ∧ summary.confirmed = [f].length ∧
    summary.duplicates + summary.confirmed + summary.refuted = summary.detections := by
  obtain ⟨f, -, done⟩ := scan_naming
  obtain ⟨reached, counted⟩ := scan_accounts naming false
  obtain ⟨-, confirmed, -, exact, -⟩ := counted _ _ reached (congrArg ScanResult.summary done)
  rw [done] at confirmed
  exact ⟨_, f, done, rfl, confirmed, exact rfl⟩

end Scanner

end TaintScan
