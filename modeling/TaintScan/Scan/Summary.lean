namespace TaintScan

inductive CycleOutcome
  | duplicate
  | confirmed
  | refuted
  | cancelled
deriving DecidableEq

/-- The counters of a scan: iterations begun and failed, detections, and how these ended. -/
structure ScanSummary where
  iterations : Nat
  failedIterations : Nat
  detections : Nat
  duplicates : Nat
  confirmed : Nat
  refuted : Nat
  cancelled : Bool
deriving DecidableEq

namespace ScanSummary

def start : ScanSummary := ⟨0, 0, 0, 0, 0, 0, false⟩

def begin (s : ScanSummary) : ScanSummary := { s with iterations := s.iterations + 1 }

def fail (s : ScanSummary) : ScanSummary := { s with failedIterations := s.failedIterations + 1 }

def detect (s : ScanSummary) (n : Nat) : ScanSummary := { s with detections := s.detections + n }

def cancel (s : ScanSummary) : ScanSummary := { s with cancelled := true }

def count (s : ScanSummary) : CycleOutcome → ScanSummary
  | .duplicate => { s with duplicates := s.duplicates + 1 }
  | .confirmed => { s with confirmed := s.confirmed + 1 }
  | .refuted => { s with refuted := s.refuted + 1 }
  | .cancelled => s.cancel

end ScanSummary

end TaintScan
