import TaintScan.Analysis.Engine
import TaintScan.Candidate.Basic
import TaintScan.Output.Parser
import TaintScan.Scan.Summary
import TaintScan.Scan.Transform

namespace TaintScan

structure Scanner where
  settings : ScanSettings
  schema : Schema
  engine : Engine
  marker : Marker
  transformer : Transformer

variable [Uri.Idna]

namespace Scanner

structure Attempt (α : Type) where
  result : Except Error α
  cancels : Bool

def render (s : Scanner) (plan : Plan) : Except Error Document :=
  Document.render s.schema s.marker s.settings.values s.settings.limits plan

def received (s : Scanner) (outcome : TransformOutcome) : Except Error Output :=
  (outcome.receive s.settings.limits s.settings.transformTimeout.toNat s.schema.stylesheet).bind
    Output.parse

def execute (s : Scanner) (plan : Plan) : Attempt (Document × Output) :=
  match s.render plan with
  | .error e => ⟨.error e, false⟩
  | .ok document =>
    let reply := s.transformer document s.schema.stylesheet
    ⟨(s.received reply.outcome).map fun output => (document, output), reply.cancels⟩

def judge (s : Scanner) (d : Detection) (run : Except Error (Document × Output)) :
    Except Error Verification :=
  match run with
  | .ok (_, output) => s.engine.verify d output
  | .error e => if e.isCollaboratorFailure then .ok (.refuted e.message) else .error e

def confirm (s : Scanner) (plan : Plan) (d : Detection) : Attempt (Option Finding) :=
  match (Candidate.ofDetection d).begin plan with
  | .error e => ⟨.error e, false⟩
  | .ok (confirmation, candidate) =>
    let run := s.execute confirmation
    let settled := (s.judge d run.result).bind candidate.resolve
    ⟨settled.map Prod.fst, run.cancels⟩

end Scanner

namespace Detection

def reportKey (d : Detection) : String × ObjectId := (d.analyzerRule, d.payload.object)

end Detection

namespace Finding

def reportKey (f : Finding) : String × ObjectId := (f.analyzerRule, f.object)

end Finding

/-- What the cycles of a scan share: the findings that are reported, the permits that are free, and
whether the scan is cancelled. -/
structure Board where
  findings : List Finding
  permits : Nat
  cancelled : Bool
deriving DecidableEq

namespace Board

def isReported (b : Board) (key : String × ObjectId) : Bool :=
  b.findings.any fun f => f.reportKey == key

def report (b : Board) (f : Finding) : Board := { b with findings := b.findings ++ [f] }

def acquire (b : Board) : Board := { b with permits := b.permits - 1 }

def release (b : Board) : Board := { b with permits := b.permits + 1 }

def cancelIf (b : Board) (asked : Bool) : Board := { b with cancelled := b.cancelled || asked }

end Board

/-- A confirmation on its way. The cycles of an iteration share a board and may take their steps in any
order between each other. -/
inductive Cycle
  | fresh (d : Detection)
  | queued (d : Detection)
  | permitted (d : Detection)
  | verified (f : Finding)
  | ended (outcome : CycleOutcome)
  | broken (e : Error)

namespace Cycle

def settle (b : Board) : Except Error (Option Finding) → Cycle × Board
  | .error e => (broken e, b.release)
  | .ok none => (ended .refuted, b.release)
  | .ok (some f) => (verified f, b)

/-- One step of a cycle. Without a free permit a queued cycle stays where it is. -/
def step (s : Scanner) (plan : Plan) (b : Board) : Cycle → Cycle × Board
  | fresh d => if b.isReported d.reportKey then (ended .duplicate, b) else (queued d, b)
  | queued d =>
    if b.permits = 0 then (queued d, b)
    else if b.cancelled then (ended .cancelled, b)
    else (permitted d, b.acquire)
  | permitted d =>
    let attempt := s.confirm plan d
    settle (b.cancelIf attempt.cancels) attempt.result
  | verified f =>
    if b.isReported f.reportKey then (ended .duplicate, b.release)
    else (ended .confirmed, (b.report f).release)
  | ended outcome => (ended outcome, b)
  | broken e => (broken e, b)

def steps (s : Scanner) (plan : Plan) : Nat → Cycle × Board → Cycle × Board
  | 0, now => now
  | n + 1, now => steps s plan n (step s plan now.2 now.1)

/-- A whole cycle without a break: four steps end it, when a permit is free. -/
def run (s : Scanner) (plan : Plan) (b : Board) (d : Detection) : Cycle × Board :=
  steps s plan 4 (fresh d, b)

def runAll (s : Scanner) (plan : Plan) (b : Board) : List Detection → List Cycle × Board
  | [] => ([], b)
  | d :: rest =>
    let (cycle, b) := run s plan b d
    let (cycles, b) := runAll s plan b rest
    (cycle :: cycles, b)

def tally (summary : ScanSummary) : List Cycle → Except Error ScanSummary
  | [] => .ok summary
  | ended outcome :: rest => tally (summary.count outcome) rest
  | broken e :: _ => .error e
  | _ :: rest => tally summary rest

end Cycle

end TaintScan
