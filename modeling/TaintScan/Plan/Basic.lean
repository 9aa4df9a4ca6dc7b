import TaintScan.Id
import TaintScan.OrderedMap

namespace TaintScan

inductive RawMode
  | full
  | restricted
deriving DecidableEq, Inhabited

namespace RawMode

def jsonName : RawMode → String
  | full => "FULL"
  | restricted => "RESTRICTED"

end RawMode

structure ScalarRule where
  id : RuleId
  target : ObjectId
  requested : Option String
deriving DecidableEq, Inhabited

namespace ScalarRule

def fresh (id : RuleId) (target : ObjectId) : ScalarRule := ⟨id, target, none⟩

def normalize (r : ScalarRule) : ScalarRule := { r with id := RuleId.nil }

def pinFirst? (id : RuleId) (value : String) : List ScalarRule → Option (List ScalarRule)
  | [] => none
  | r :: rest =>
    if r.id = id then some ({ r with requested := some value } :: rest)
    else (pinFirst? id value rest).map (r :: ·)

end ScalarRule

inductive ContentRule
  | element (id : RuleId) (reference : ObjectId) (attributes : List ScalarRule)
      (content : List ContentRule)
  | data (rule : ScalarRule)
  | raw (rule : ScalarRule) (mode : RawMode)
deriving Inhabited

namespace ContentRule

mutual

def decideEq : (a b : ContentRule) → Decidable (a = b)
  | element i r as cs, element j s bs ds =>
    if h : i = j ∧ r = s ∧ as = bs then
      match decideEqAll cs ds with
      | .isTrue same => .isTrue (by simp [h.1, h.2.1, h.2.2, same])
      | .isFalse differ => .isFalse (by simp [differ])
    else .isFalse (by simpa using fun a b c => absurd ⟨a, b, c⟩ h)
  | data r, data s => if h : r = s then .isTrue (by rw [h]) else .isFalse (by simpa using h)
  | raw r m, raw s n =>
    if h : r = s ∧ m = n then .isTrue (by rw [h.1, h.2]) else .isFalse (by simpa using h)
  | element _ _ _ _, data _ => .isFalse nofun
  | element _ _ _ _, raw _ _ => .isFalse nofun
  | data _, element _ _ _ _ => .isFalse nofun
  | data _, raw _ _ => .isFalse nofun
  | raw _ _, element _ _ _ _ => .isFalse nofun
  | raw _ _, data _ => .isFalse nofun

def decideEqAll : (as bs : List ContentRule) → Decidable (as = bs)
  | [], [] => .isTrue rfl
  | [], _ :: _ => .isFalse nofun
  | _ :: _, [] => .isFalse nofun
  | a :: as, b :: bs =>
    match decideEq a b, decideEqAll as bs with
    | .isTrue h, .isTrue hs => .isTrue (by rw [h, hs])
    | .isFalse h, _ => .isFalse (by simp [h])
    | _, .isFalse hs => .isFalse (by simp [hs])

end

instance : DecidableEq ContentRule := decideEq

end ContentRule

structure ElementRule where
  id : RuleId
  reference : ObjectId
  attributes : List ScalarRule
  content : List ContentRule
deriving DecidableEq, Inhabited

/-- What the execution of a plan sees of a rule that carries a value. -/
structure ValueRule where
  id : RuleId
  target : ObjectId
  requested : Option String
  mode : Option RawMode
deriving DecidableEq, Inhabited

namespace ScalarRule

def toValueRule (r : ScalarRule) : ValueRule := ⟨r.id, r.target, r.requested, none⟩

def toRawRule (r : ScalarRule) (mode : RawMode) : ValueRule := ⟨r.id, r.target, r.requested, some mode⟩

end ScalarRule

namespace ContentRule

def id : ContentRule → RuleId
  | element id _ _ _ => id
  | data r => r.id
  | raw r _ => r.id

def target : ContentRule → ObjectId
  | element _ reference _ _ => reference
  | data r => r.target
  | raw r _ => r.target

mutual

def valueRules : ContentRule → List ValueRule
  | element _ _ attributes content =>
    attributes.map ScalarRule.toValueRule ++ valueRulesOf content
  | data r => [r.toValueRule]
  | raw r mode => [r.toRawRule mode]

def valueRulesOf : List ContentRule → List ValueRule
  | [] => []
  | c :: rest => valueRules c ++ valueRulesOf rest

end

mutual

def elementCount : ContentRule → Nat
  | element _ _ _ content => 1 + elementCountOf content
  | data _ => 0
  | raw _ _ => 0

def elementCountOf : List ContentRule → Nat
  | [] => 0
  | c :: rest => elementCount c + elementCountOf rest

end

mutual

def ruleIds : ContentRule → List RuleId
  | element id _ attributes content => id :: attributes.map ScalarRule.id ++ ruleIdsOf content
  | data r => [r.id]
  | raw r _ => [r.id]

def ruleIdsOf : List ContentRule → List RuleId
  | [] => []
  | c :: rest => ruleIds c ++ ruleIdsOf rest

end

mutual

def normalize : ContentRule → ContentRule
  | element _ reference attributes content =>
    element RuleId.nil reference (attributes.map ScalarRule.normalize) (normalizeAll content)
  | data r => data r.normalize
  | raw r mode => raw r.normalize mode

def normalizeAll : List ContentRule → List ContentRule
  | [] => []
  | c :: rest => normalize c :: normalizeAll rest

end

mutual

/-- Pins a value to the first value rule of an identity, attributes before content. Element rules
carry no value and are passed over. -/
def pin? (id : RuleId) (value : String) : ContentRule → Option ContentRule
  | element own reference attributes content =>
    match ScalarRule.pinFirst? id value attributes with
    | some attributes => some (element own reference attributes content)
    | none => (pinAmong? id value content).map (element own reference attributes)
  | data r => if r.id = id then some (data { r with requested := some value }) else none
  | raw r mode => if r.id = id then some (raw { r with requested := some value } mode) else none

def pinAmong? (id : RuleId) (value : String) : List ContentRule → Option (List ContentRule)
  | [] => none
  | c :: rest =>
    match pin? id value c with
    | some c => some (c :: rest)
    | none => (pinAmong? id value rest).map (c :: ·)

end

end ContentRule

namespace ElementRule

def toContent (e : ElementRule) : ContentRule := .element e.id e.reference e.attributes e.content

theorem toContent_inj {e f : ElementRule} : e.toContent = f.toContent ↔ e = f := by
  cases e
  cases f
  simp [toContent]

def valueRules (e : ElementRule) : List ValueRule := e.toContent.valueRules

def elementCount (e : ElementRule) : Nat := e.toContent.elementCount

def containsRule (e : ElementRule) (id : RuleId) : Bool := e.toContent.ruleIds.contains id

def normalize (e : ElementRule) : ElementRule :=
  ⟨RuleId.nil, e.reference, e.attributes.map ScalarRule.normalize,
    ContentRule.normalizeAll e.content⟩

def pin? (id : RuleId) (value : String) (e : ElementRule) : Option ElementRule :=
  match ScalarRule.pinFirst? id value e.attributes with
  | some attributes => some { e with attributes := attributes }
  | none => (ContentRule.pinAmong? id value e.content).map fun content => { e with content := content }

end ElementRule

/-- The rules for one document: its tree, the results of functions and the values of parameters.
Requested values are also kept by the object they are pinned for. -/
structure Plan where
  stylesheet : String
  version : UInt32
  valueSeed : UInt64
  root : ElementRule
  functions : List ScalarRule
  parameters : List ScalarRule
  requestedValues : OrderedMap ObjectId String
deriving DecidableEq, Inhabited

namespace Plan

/-- The rules that carry a value: the tree, then functions, then parameters. -/
def valueRules (p : Plan) : List ValueRule :=
  p.root.valueRules ++ p.functions.map ScalarRule.toValueRule ++
    p.parameters.map ScalarRule.toValueRule

def valueRuleCount (p : Plan) : Nat := p.valueRules.length

def elementCount (p : Plan) : Nat := p.root.elementCount

def lastRule? (p : Plan) (id : RuleId) : Option ValueRule :=
  p.valueRules.reverse.find? fun r => r.id == id

def requestedForObject? (p : Plan) (id : ObjectId) : Option String := p.requestedValues.get? id

def requestedForRule? (p : Plan) (id : RuleId) : Option String :=
  (p.lastRule? id).bind ValueRule.requested

/-- The plan without the identities of its rules: two plans of one shape become equal. -/
def normalize (p : Plan) : Plan :=
  { p with
    root := p.root.normalize
    functions := p.functions.map ScalarRule.normalize
    parameters := p.parameters.map ScalarRule.normalize }

end Plan

end TaintScan
