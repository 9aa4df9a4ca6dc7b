namespace TaintScan

/-- Why a run breaks down, which is no answer and no error that anyone could handle. -/
inductive Breakdown
  | probability
  | capacity
  | permits
deriving DecidableEq

namespace Breakdown

def mostBytes : Nat := 9223372036854775807

def mostPermits : Nat := 2305843009213693951

def message : Breakdown → String
  | probability => "a chance that is no number"
  | capacity => "capacity overflow"
  | permits => "a semaphore may not have more than 2305843009213693951 permits"

end Breakdown

end TaintScan
