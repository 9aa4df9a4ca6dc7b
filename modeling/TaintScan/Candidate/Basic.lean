import TaintScan.Analysis.Detection
import TaintScan.Candidate.State

namespace TaintScan

structure Candidate where
  detection : Detection
  state : CandidateState
deriving DecidableEq

namespace Candidate

def ofDetection (d : Detection) : Candidate := ⟨d, .detected⟩

def transition (c : Candidate) (next : CandidateState) : Except Error Candidate :=
  if c.state.canBecome next then .ok { c with state := next }
  else .error (.illegalState (.about (.transition c.detection.analyzerRule c.state next)
    c.detection.rule c.detection.payload.object))

/-- The confirmation plan of a candidate, whose output it awaits from now on. -/
def begin (c : Candidate) (plan : Plan) : Except Error (Plan × Candidate) :=
  match c.detection.apply plan with
  | .error e => .error e
  | .ok confirmation => (c.transition .awaiting).map fun c => (confirmation, c)

def finding (c : Candidate) (sample : String) : Finding where
  analyzerRule := c.detection.analyzerRule
  object := c.detection.payload.object
  path := c.detection.payload.path
  inputSample := c.detection.payload.replacement
  detectedSample := c.detection.payload.outputSample
  outputSample := sample

def resolve (c : Candidate) (v : Verification) : Except Error (Option Finding × Candidate) :=
  match v with
  | .confirmed sample => (c.transition .confirmed).map fun c => (some (c.finding sample), c)
  | .refuted _ => (c.transition .refuted).map fun c => (none, c)

end Candidate

end TaintScan
