namespace TaintScan

inductive CandidateState
  | detected
  | awaiting
  | confirmed
  | refuted
deriving DecidableEq

namespace CandidateState

def text : CandidateState → String
  | detected => "detected"
  | awaiting => "awaiting confirmation transform"
  | confirmed => "confirmed"
  | refuted => "refuted"

def jsonName : CandidateState → String
  | detected => "Detected"
  | awaiting => "AwaitingConfirmationTransform"
  | confirmed => "Confirmed"
  | refuted => "Refuted"

def isTerminal : CandidateState → Bool
  | confirmed => true
  | refuted => true
  | _ => false

def canBecome : CandidateState → CandidateState → Bool
  | detected, awaiting => true
  | awaiting, confirmed => true
  | awaiting, refuted => true
  | _, _ => false

theorem isTerminal_iff (s : CandidateState) :
    s.isTerminal = true ↔ ∀ t, s.canBecome t = false := by
  constructor
  · intro h t; cases s <;> cases t <;> simp_all [isTerminal, canBecome]
  · intro h
    cases s
    · exact absurd (h awaiting) (by decide)
    · exact absurd (h confirmed) (by decide)
    · rfl
    · rfl

end CandidateState

end TaintScan
