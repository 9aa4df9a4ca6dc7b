import Mathlib.Logic.Relation
import TaintScan.Scan.Run

namespace TaintScan

/-- What a scan does not decide itself: which engines answer its calls, and whether it may be
cancelled from outside. -/
structure Surroundings where
  answers : Transformer → Prop
  cancels : Prop

namespace Surroundings

/-- Every call may be answered in any way, and the scan may be cancelled at any moment. -/
def hostile : Surroundings := ⟨fun _ => True, True⟩

def calm (t : Transformer) : Surroundings := ⟨fun answering => answering = t, False⟩

end Surroundings

/-- How far a scan has come: it is between iterations, of which some are left, or confirms the
detections of one, or has ended. -/
inductive Progress
  | ready (left iteration : Nat) (summary : ScanSummary) (b : Board)
  | confirming (left iteration : Nat) (plan : Plan) (summary : ScanSummary) (cycles : List Cycle)
    (b : Board)
  | ended (result : ScanResult)

namespace Cycle

def isDone : Cycle → Bool
  | ended _ => true
  | broken _ => true
  | _ => false

def canStep (b : Board) : Cycle → Bool
  | fresh _ => true
  | queued _ => b.permits != 0
  | permitted _ => true
  | verified _ => true
  | ended _ => false
  | broken _ => false

end Cycle

/-- Where a scan goes when the cycles of an iteration have ended. -/
def Progress.join (left iteration : Nat) (b : Board) : Except Error ScanSummary → Progress
  | .error e => .ended ⟨.error e, b⟩
  | .ok summary => .ready left (iteration + 1) summary b

namespace Scanner

variable [Uri.Idna]

def answeredBy (s : Scanner) (t : Transformer) : Scanner := { s with transformer := t }

def launch (s : Scanner) (left iteration : Nat) (summary : ScanSummary) (b : Board) : Progress :=
  match s.planOf iteration with
  | .error e => .ended ⟨.error e, b⟩
  | .ok plan =>
    let attempt := s.execute plan
    let b := b.cancelIf attempt.cancels
    match attempt.result with
    | .error e =>
      if e.isCollaboratorFailure then .ready left (iteration + 1) summary.begin.fail b
      else .ended ⟨.error e, b⟩
    | .ok run =>
      .confirming left iteration plan (summary.begin.detect (s.detections run).length)
        ((s.detections run).map .fresh) b

inductive Moves (s : Scanner) (around : Surroundings) : Progress → Progress → Prop
  | finish {iteration : Nat} {summary : ScanSummary} {b : Board} :
    Moves s around (.ready 0 iteration summary b) (.ended ⟨.ok summary, b⟩)
  | stop {left iteration : Nat} {summary : ScanSummary} {b : Board} (off : b.cancelled = true) :
    Moves s around (.ready (left + 1) iteration summary b) (.ended ⟨.ok summary.cancel, b⟩)
  | launch {left iteration : Nat} {summary : ScanSummary} {b : Board} {t : Transformer}
    (answer : around.answers t) (on : b.cancelled = false) :
    Moves s around (.ready (left + 1) iteration summary b)
      ((s.answeredBy t).launch left iteration summary b)
  | cycle {left iteration : Nat} {plan : Plan} {summary : ScanSummary} {before after : List Cycle}
    {c : Cycle} {b : Board} {t : Transformer} (answer : around.answers t)
    (able : c.canStep b = true) :
    Moves s around (.confirming left iteration plan summary (before ++ c :: after) b)
      (.confirming left iteration plan summary
        (before ++ (c.step (s.answeredBy t) plan b).1 :: after) (c.step (s.answeredBy t) plan b).2)
  | join {left iteration : Nat} {plan : Plan} {summary : ScanSummary} {cycles : List Cycle}
    {b : Board} (done : ∀ c ∈ cycles, c.isDone = true) :
    Moves s around (.confirming left iteration plan summary cycles b)
      (.join left iteration b (Cycle.tally summary cycles))
  | cancelBetween {left iteration : Nat} {summary : ScanSummary} {b : Board}
    (asked : around.cancels) (on : b.cancelled = false) :
    Moves s around (.ready left iteration summary b)
      (.ready left iteration summary (b.cancelIf true))
  | cancelWithin {left iteration : Nat} {plan : Plan} {summary : ScanSummary} {cycles : List Cycle}
    {b : Board} (asked : around.cancels) (on : b.cancelled = false) :
    Moves s around (.confirming left iteration plan summary cycles b)
      (.confirming left iteration plan summary cycles (b.cancelIf true))

def Reaches (s : Scanner) (around : Surroundings) : Progress → Progress → Prop :=
  Relation.ReflTransGen (s.Moves around)

/-- Where a scan begins, or ends before it has begun when it asks for too many permits. -/
def start (s : Scanner) (cancelled : Bool) : Progress :=
  if s.isOverbooked then .ended ⟨.error (.breakdown .permits), s.firstBoard cancelled⟩
  else .ready s.settings.iterations.toNat 0 .start (s.firstBoard cancelled)

end Scanner

namespace Board

variable (b : Board) (f : Finding) (asked : Bool)

@[simp]
theorem report_findings : (b.report f).findings = b.findings ++ [f] := rfl

@[simp]
theorem report_permits : (b.report f).permits = b.permits := rfl

@[simp]
theorem report_cancelled : (b.report f).cancelled = b.cancelled := rfl

@[simp]
theorem acquire_findings : b.acquire.findings = b.findings := rfl

@[simp]
theorem acquire_permits : b.acquire.permits = b.permits - 1 := rfl

@[simp]
theorem acquire_cancelled : b.acquire.cancelled = b.cancelled := rfl

@[simp]
theorem release_findings : b.release.findings = b.findings := rfl

@[simp]
theorem release_permits : b.release.permits = b.permits + 1 := rfl

@[simp]
theorem release_cancelled : b.release.cancelled = b.cancelled := rfl

@[simp]
theorem cancelIf_findings : (b.cancelIf asked).findings = b.findings := rfl

@[simp]
theorem cancelIf_permits : (b.cancelIf asked).permits = b.permits := rfl

@[simp]
theorem cancelIf_cancelled : (b.cancelIf asked).cancelled = (b.cancelled || asked) := rfl

@[simp]
theorem cancelIf_false : b.cancelIf false = b := by rw [cancelIf, Bool.or_false]

theorem isReported_iff {b : Board} {key : String × ObjectId} :
    b.isReported key = true ↔ key ∈ b.findings.map Finding.reportKey := by
  simp [isReported]

end Board

namespace Cycle

variable [Uri.Idna] {b : Board} {c : Cycle}

inductive Taken (s : Scanner) (plan : Plan) (b : Board) : Cycle → Cycle × Board → Prop
  | known {d : Detection} (seen : b.isReported d.reportKey = true) :
    Taken s plan b (fresh d) (ended .duplicate, b)
  | unknown {d : Detection} (unseen : b.isReported d.reportKey = false) :
    Taken s plan b (fresh d) (queued d, b)
  | withdrawn {d : Detection} (free : b.permits ≠ 0) (off : b.cancelled = true) :
    Taken s plan b (queued d) (ended .cancelled, b)
  | admitted {d : Detection} (free : b.permits ≠ 0) (on : b.cancelled = false) :
    Taken s plan b (queued d) (permitted d, b.acquire)
  | failed {d : Detection} {e : Error} (result : (s.confirm plan d).result = .error e) :
    Taken s plan b (permitted d) (broken e, (b.cancelIf (s.confirm plan d).cancels).release)
  | refuted {d : Detection} (result : (s.confirm plan d).result = .ok none) :
    Taken s plan b (permitted d) (ended .refuted, (b.cancelIf (s.confirm plan d).cancels).release)
  | found {d : Detection} {f : Finding} (result : (s.confirm plan d).result = .ok (some f)) :
    Taken s plan b (permitted d) (verified f, b.cancelIf (s.confirm plan d).cancels)
  | repeated {f : Finding} (seen : b.isReported f.reportKey = true) :
    Taken s plan b (verified f) (ended .duplicate, b.release)
  | reported {f : Finding} (unseen : b.isReported f.reportKey = false) :
    Taken s plan b (verified f) (ended .confirmed, (b.report f).release)

theorem step_taken (s : Scanner) (plan : Plan) (able : c.canStep b = true) :
    Taken s plan b c (c.step s plan b) := by
  cases c with
  | fresh d =>
    cases seen : b.isReported d.reportKey with
    | true => simpa [step, seen] using .known seen
    | false => simpa [step, seen] using .unknown seen
  | queued d =>
    have free : b.permits ≠ 0 := by simpa [canStep] using able
    cases off : b.cancelled with
    | true => simpa [step, free, off] using .withdrawn free off
    | false => simpa [step, free, off] using .admitted free off
  | permitted d =>
    cases result : (s.confirm plan d).result with
    | error e => simpa [step, result, settle] using .failed result
    | ok settled =>
      cases settled with
      | none => simpa [step, result, settle] using .refuted result
      | some f => simpa [step, result, settle] using .found result
  | verified f =>
    cases seen : b.isReported f.reportKey with
    | true => simpa [step, seen] using .repeated seen
    | false => simpa [step, seen] using .reported seen
  | ended outcome => cases able
  | broken e => cases able

theorem step_idle {s : Scanner} {plan : Plan} (idle : c.canStep b = false) :
    c.step s plan b = (c, b) := by
  cases c with
  | queued d =>
    have none : b.permits = 0 := by simpa [canStep] using idle
    simp [step, none]
  | ended outcome => rfl
  | broken e => rfl
  | fresh d => cases idle
  | permitted d => cases idle
  | verified f => cases idle

end Cycle

namespace Scanner

variable {s : Scanner} {around : Surroundings} {now next : Progress}

theorem start_cases {kept : Progress → Prop} {cancelled : Bool}
    (refused : s.isOverbooked = true →
      kept (.ended ⟨.error (.breakdown .permits), s.firstBoard cancelled⟩))
    (begun : s.isOverbooked = false →
      kept (.ready s.settings.iterations.toNat 0 .start (s.firstBoard cancelled))) :
    kept (s.start cancelled) := by
  unfold start
  cases excess : s.isOverbooked with
  | true => exact refused excess
  | false => exact begun excess

variable [Uri.Idna]

theorem Reaches.keeps (kept : Progress → Prop) (run : s.Reaches around now next) (first : kept now)
    (step : ∀ p q, s.Moves around p q → kept p → kept q) : kept next := by
  induction run with
  | refl => exact first
  | tail _ move ih => exact step _ _ move ih

theorem Moves.hostile (h : s.Moves around now next) : s.Moves .hostile now next := by
  cases h with
  | finish => exact .finish
  | stop off => exact .stop off
  | launch _ on => exact .launch trivial on
  | cycle _ able => exact .cycle trivial able
  | join done => exact .join done
  | cancelBetween _ on => exact .cancelBetween trivial on
  | cancelWithin _ on => exact .cancelWithin trivial on

theorem Reaches.hostile (h : s.Reaches around now next) : s.Reaches .hostile now next :=
  Relation.ReflTransGen.mono (fun _ _ => Moves.hostile) _ _ h

end Scanner

end TaintScan
