import TaintScan.Error
import TaintScan.Plan.Basic

namespace TaintScan.Plan

/-- The plan with a value pinned to the first value rule of an identity: in the tree, else among
the functions, else among the parameters. -/
def pin? (p : Plan) (id : RuleId) (value : String) : Option Plan :=
  match p.root.pin? id value with
  | some root => some { p with root := root }
  | none =>
    match ScalarRule.pinFirst? id value p.functions with
    | some functions => some { p with functions := functions }
    | none =>
      (ScalarRule.pinFirst? id value p.parameters).map fun parameters =>
        { p with parameters := parameters }

def targetOf (p : Plan) (rule : RuleId) (object : ObjectId) : Except Error ObjectId :=
  match p.lastRule? rule with
  | some r => .ok r.target
  | none =>
    if p.root.containsRule rule then .error (.illegalState (.about .elementRule rule object))
    else .error (.unknownRule rule)

/-- Pins a value to a rule, which must target the given object, and keeps it for the object. -/
def modify (p : Plan) (rule : RuleId) (object : ObjectId) (value : String) : Except Error Plan :=
  match p.targetOf rule object with
  | .error e => .error e
  | .ok target =>
    if target = object then
      .ok { (p.pin? rule value).getD p with
        requestedValues := p.requestedValues.insert object value }
    else .error (.illegalState (.about (.otherTarget target) rule object))

end TaintScan.Plan
