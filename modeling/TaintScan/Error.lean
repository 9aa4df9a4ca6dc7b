import TaintScan.Breakdown
import TaintScan.Files
import TaintScan.Id
import TaintScan.Name.Qualified
import TaintScan.Schema.Kind
import TaintScan.Candidate.State
import TaintScan.Markup.Fault

namespace TaintScan

def numberText (n : Nat) : String := String.ofList (Text.natural n)

inductive StateProblem
  | elementRule
  | otherTarget (target : ObjectId)
  | valueless (kind : ObjectKind)
  | transition (analyzerRule : String) (now next : CandidateState)
  | stated (text : String)
deriving DecidableEq

namespace StateProblem

def message : StateProblem → String
  | elementRule => "Element rules carry no value"
  | otherTarget target => "Rule targets schema object " ++ target.text
  | valueless kind => "The " ++ kind.text ++ " carries no value"
  | transition analyzerRule now next =>
    "Candidate of rule " ++ analyzerRule ++ " cannot go from " ++ now.text ++ " to " ++ next.text
  | stated text => text

end StateProblem

structure StateFault where
  problem : StateProblem
  rule : Option RuleId
  object : Option ObjectId
  sample : Option String
deriving DecidableEq

def paragraph (heading : String) : Option String → String
  | some text => "\n\n" ++ heading ++ text
  | none => ""

namespace StateFault

def about (problem : StateProblem) (rule : RuleId) (object : ObjectId) : StateFault :=
  ⟨problem, some rule, some object, none⟩

def message (fault : StateFault) : String :=
  fault.problem.message ++ paragraph "Rule: " (fault.rule.map RuleId.text) ++
    paragraph "Schema object: " (fault.object.map ObjectId.text) ++
    paragraph "Sample:\n" fault.sample

end StateFault

structure TransformFailure where
  explanation : String
  stylesheet : Option String
  input : Option String
deriving DecidableEq

namespace TransformFailure

def message (failure : TransformFailure) : String :=
  failure.explanation ++ paragraph "Stylesheet: " failure.stylesheet ++
    paragraph "Input:\n" failure.input

end TransformFailure

inductive OutputFault
  | markup (position : Nat) (fault : Markup.Fault)
  | attributes (fault : Markup.AttributeFault)
  | stated (text : String)
deriving DecidableEq

namespace OutputFault

def message : OutputFault → String
  | markup position fault =>
    "Error parsing output at position " ++ numberText position ++ ": " ++ fault.message
  | attributes fault => "Failed to parse attribute: " ++ fault.message
  | stated text => text

end OutputFault

structure SchemaKey where
  stylesheet : String
  version : UInt32
deriving DecidableEq, Hashable

namespace SchemaKey

def text (key : SchemaKey) : String := key.stylesheet ++ " v" ++ numberText key.version.toNat

end SchemaKey

inductive SchemaFault
  | duplicateId (id : ObjectId)
  | referenceName (id : ObjectId) (name : String)
  | attributeName (id : ObjectId) (owner name : String)
  | noRoots (stylesheet : String)
  | foreignPlan (plan schema : SchemaKey)
  | foreignFile (path : String) (held expected : SchemaKey)
  | stated (text : String)
deriving DecidableEq

namespace SchemaFault

def message : SchemaFault → String
  | duplicateId id => "Duplicate schema object ID " ++ id.text
  | referenceName id name =>
    "Element reference " ++ id.text ++ " has invalid name '" ++ name ++ "'"
  | attributeName id owner name =>
    "Attribute " ++ id.text ++ " of '" ++ owner ++ "' has invalid name '" ++ name ++ "'"
  | noRoots stylesheet => "Schema for '" ++ stylesheet ++ "' has no root elements"
  | foreignPlan plan schema => "Request for " ++ plan.text ++ " rendered against schema " ++ schema.text
  | foreignFile path held expected =>
    "'" ++ path ++ "' holds the schema of " ++ held.text ++ ", expected " ++ expected.text
  | stated text => text

end SchemaFault

inductive MarkerFault
  | unsafeStem (stem : String)
  | exhausted (length attempts : Nat)
  | stated (text : String)
deriving DecidableEq

namespace MarkerFault

def message : MarkerFault → String
  | unsafeStem stem =>
    "Marker prefix '" ++ stem ++ "' must be lowercase ASCII letters and digits"
  | exhausted length attempts =>
    "No collision-free prefix of length " ++ numberText length ++ " after " ++
      numberText attempts ++ " attempts"
  | stated text => text

end MarkerFault

inductive ResourceFault
  | unreadable (path : String) (fault : FileFault)
  | remote (uri : String)
  | unlocated (text : String)
  | stated (text : String)
deriving DecidableEq

namespace ResourceFault

def message : ResourceFault → String
  | unreadable path fault => "Failed to read file '" ++ path ++ "': " ++ fault.message
  | remote uri => "Remote resources are not loaded by the scanner: " ++ uri
  | unlocated text => "Stylesheet '" ++ text ++ "' is neither an existing path nor a URL"
  | stated text => text

end ResourceFault

inductive LimitFault
  | document (size limit : Nat)
  | output (size limit : Nat)
  | stated (text : String)
deriving DecidableEq

namespace LimitFault

def sized (what : String) (size limit : Nat) : String :=
  what ++ " size " ++ numberText size ++ " bytes exceeds maximum " ++ numberText limit ++ " bytes"

def message : LimitFault → String
  | document size limit => sized "Document" size limit
  | output size limit => sized "Output" size limit
  | stated text => text

end LimitFault

inductive SettingFault
  | noConcurrency
  | noTimeout
  | probability (name : String) (value : Float)
  | registered (analyzerRule : String)
  | stated (text : String)

namespace SettingFault

def message : SettingFault → String
  | noConcurrency => "max_concurrent_confirmations must be at least 1"
  | noTimeout => "transform_timeout_ms must be positive"
  | probability name value =>
    name ++ " must be within [0, 1], got " ++ String.ofList (Decimal.text value)
  | registered analyzerRule => "Analyzer rule " ++ analyzerRule ++ " is already registered"
  | stated text => text

end SettingFault

inductive Error
  | unknownObject (id : ObjectId)
  | unknownRule (id : RuleId)
  | unknownAnalyzerRule (name : String)
  | wrongKind (id : ObjectId) (found expected : ObjectKind)
  | illegalState (fault : StateFault)
  | transform (failure : TransformFailure)
  | timeout (milliseconds : Nat)
  | output (fault : OutputFault)
  | schema (fault : SchemaFault)
  | value (fault : MarkerFault)
  | resource (fault : ResourceFault)
  | name (fault : NameFault)
  | limit (fault : LimitFault)
  | file (fault : FileFault)
  | markup (text : String)
  | json (fault : Json.Fault)
  | setting (fault : SettingFault)
  | breakdown (cause : Breakdown)

def durationText (milliseconds : Nat) : String :=
  if milliseconds = 0 then "0ns"
  else if milliseconds < 1000 then numberText milliseconds ++ "ms"
  else
    let (whole, fraction) := Decimal.positional milliseconds (-3)
    numberText whole ++ (if fraction.isEmpty then "" else "." ++ String.ofList fraction) ++ "s"

namespace Error

/-- Only a collaborator failed: a scan survives it. -/
def isCollaboratorFailure : Error → Bool
  | transform _ => true
  | timeout _ => true
  | output _ => true
  | limit _ => true
  | _ => false

def message : Error → String
  | unknownObject id => "unknown schema object: " ++ id.text
  | unknownRule id => "unknown generation rule: " ++ id.text
  | unknownAnalyzerRule rule => "unknown analyzer rule: " ++ rule
  | wrongKind id found expected =>
    "schema object " ++ id.text ++ " is a " ++ found.text ++ ", expected " ++ expected.text
  | illegalState fault => "illegal state: " ++ fault.message
  | transform failure => "transform failed: " ++ failure.message
  | timeout milliseconds => "transform timed out after " ++ durationText milliseconds
  | output fault => "output parse error: " ++ fault.message
  | schema fault => "schema error: " ++ fault.message
  | value fault => "value error: " ++ fault.message
  | resource fault => "resource error: " ++ fault.message
  | name fault => "name error: " ++ fault.message
  | limit fault => "limit exceeded: " ++ fault.message
  | file fault => "I/O error: " ++ fault.message
  | markup text => "XML error: " ++ text
  | json .ended => "JSON error: unexpected end"
  | json .malformed => "JSON error: malformed text"
  | json .unfit => "JSON error: unexpected value"
  | setting fault => fault.message
  | breakdown cause => cause.message

end Error

end TaintScan
