import TaintScan.Plan.Generation
import TaintScan.Scan.Cycle
import TaintScan.Taint.Stylesheet

namespace TaintScan

/-- The end of a scan: its counters or the error that ended it, and the board. -/
structure ScanResult where
  summary : Except Error ScanSummary
  board : Board

variable [Uri.Idna]

namespace Scanner

def seedOf (s : Scanner) (iteration : Nat) : UInt64 := s.settings.seed + UInt64.ofNat iteration

def planOf (s : Scanner) (iteration : Nat) : Except Error Plan :=
  (Plan.generate s.schema s.settings.generation s.settings.contentMode .uniform
    (.ofSeed (s.seedOf iteration))).map Prod.fst

def detections (s : Scanner) (run : Document × Output) : List Detection :=
  s.engine.analyze run.2 s.schema run.1.ledger s.marker

/-- When a collaborator fails in the first run, the iteration has failed and the scan goes on; any other
error ends it. -/
def afterFirstRun (s : Scanner) (plan : Plan) (summary : ScanSummary) (b : Board) :
    Except Error (Document × Output) → ScanResult
  | .error e => if e.isCollaboratorFailure then ⟨.ok summary.fail, b⟩ else ⟨.error e, b⟩
  | .ok run =>
    let found := s.detections run
    let (cycles, b) := Cycle.runAll s plan b found
    ⟨Cycle.tally (summary.detect found.length) cycles, b⟩

def iterate (s : Scanner) (iteration : Nat) (summary : ScanSummary) (b : Board) : ScanResult :=
  match s.planOf iteration with
  | .error e => ⟨.error e, b⟩
  | .ok plan =>
    let attempt := s.execute plan
    s.afterFirstRun plan summary.begin (b.cancelIf attempt.cancels) attempt.result

/-- A number of iterations from one on. A cancelled scan begins no further one. -/
def iterations (s : Scanner) : Nat → Nat → ScanSummary → Board → ScanResult
  | 0, _, summary, b => ⟨.ok summary, b⟩
  | n + 1, iteration, summary, b =>
    if b.cancelled then ⟨.ok summary.cancel, b⟩
    else
      let done := s.iterate iteration summary b
      match done.summary with
      | .error e => ⟨.error e, done.board⟩
      | .ok summary => iterations s n (iteration + 1) summary done.board

/-- The board at the beginning of a scan. There is at least one permit. -/
def firstBoard (s : Scanner) (cancelled : Bool) : Board :=
  ⟨[], max s.settings.maxConcurrentConfirmations.toNat 1, cancelled⟩

def isOverbooked (s : Scanner) : Bool :=
  Breakdown.mostPermits < s.settings.maxConcurrentConfirmations.toNat

def scan (s : Scanner) (cancelled : Bool) : ScanResult :=
  if s.isOverbooked then ⟨.error (.breakdown .permits), s.firstBoard cancelled⟩
  else s.iterations s.settings.iterations.toNat 0 .start (s.firstBoard cancelled)

def scanSelecting (s : Scanner) (selection : Marker.Selection) (limits : Limits) (files : Files)
    (cancelled : Bool) : ScanResult :=
  match selection.forStylesheet limits files s.schema.stylesheet with
  | .error e => ⟨.error e, s.firstBoard cancelled⟩
  | .ok marker => { s with marker := marker }.scan cancelled

end Scanner

end TaintScan
