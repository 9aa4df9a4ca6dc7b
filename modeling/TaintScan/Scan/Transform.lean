import TaintScan.Document

namespace TaintScan

inductive TransformOutcome
  | output (text : String)
  | failed (failure : TransformFailure)
  | crashed (explanation : String)
  | late
deriving DecidableEq

structure TransformReply where
  outcome : TransformOutcome
  cancels : Bool
deriving DecidableEq

abbrev Transformer := Document → String → TransformReply

namespace TransformOutcome

def receive (outcome : TransformOutcome) (limits : Limits) (timeout : Nat) (stylesheet : String) :
    Except Error String :=
  match outcome with
  | output text => (limits.checkOutputSize text.utf8ByteSize).map fun _ => text
  | failed failure => .error (.transform failure)
  | crashed explanation =>
    .error (.transform ⟨"Transform task failed: " ++ explanation, some stylesheet, none⟩)
  | late => .error (.timeout timeout)

end TransformOutcome

end TaintScan
