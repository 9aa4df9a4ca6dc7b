import TaintScan.Json.Decode
import TaintScan.Text.Blank

namespace TaintScan

inductive DataType
  | string
  | boolean
  | integer
  | other
deriving DecidableEq, Inhabited

namespace DataType

def xsdName : DataType → String
  | string => "xs:string"
  | boolean => "xs:boolean"
  | integer => "xs:integer"
  | other => "xs:anyAtomicType"

def jsonName : DataType → String
  | string => "STRING"
  | boolean => "BOOLEAN"
  | integer => "INTEGER"
  | other => "OTHER"

def all : List DataType := [string, boolean, integer, other]

def toJson (t : DataType) : Json.Value := .string t.jsonName

def decoder : Json.Decoder DataType := .choice (all.map fun t => (t.jsonName, t))

end DataType

/-- What a value must satisfy. Discrete values are the whole set of valid values when they are
fixed, and mere suggestions otherwise. -/
structure DataConstraint where
  dataType : DataType
  maxLength : Option UInt64
  minValue : Option Int64
  maxValue : Option Int64
  discreteValues : List String
  fixedValues : Bool
deriving DecidableEq

namespace DataConstraint

def ofType (t : DataType) : DataConstraint := ⟨t, none, none, none, [], false⟩

def anyText : DataConstraint := ofType .string

instance : Inhabited DataConstraint := ⟨anyText⟩

def withMaxLength (c : DataConstraint) (n : UInt64) : DataConstraint := { c with maxLength := some n }

def withRange (c : DataConstraint) (least most : Option Int64) : DataConstraint :=
  { c with minValue := least, maxValue := most }

def withFixedValues (c : DataConstraint) (values : List String) : DataConstraint :=
  { c with discreteValues := values, fixedValues := true }

def withInterestingValues (c : DataConstraint) (values : List String) : DataConstraint :=
  { c with discreteValues := values, fixedValues := false }

def hasFixedSet (c : DataConstraint) : Bool := c.fixedValues && !c.discreteValues.isEmpty

def hasInterestingSet (c : DataConstraint) : Bool := !c.fixedValues && !c.discreteValues.isEmpty

def boolean? (value : String) : Option Bool :=
  let cs := Text.trim value.toList
  if cs == "true".toList || cs == "1".toList then some true
  else if cs == "false".toList || cs == "0".toList then some false
  else none

def integer? (value : String) : Option Int64 := Text.int64? (Text.trim value.toList)

/-- A value has the type, the length and the bounds, and is of the closed set if there is one.
Truth values and integers are compared by what they stand for. -/
def accepts (c : DataConstraint) (value : String) : Bool :=
  match c.dataType with
  | .string | .other =>
    c.maxLength.all (fun most => decide (value.length ≤ most.toNat)) &&
      (!c.hasFixedSet || c.discreteValues.contains value)
  | .boolean =>
    match boolean? value with
    | none => false
    | some b => !c.hasFixedSet || c.discreteValues.any fun v => boolean? v == some b
  | .integer =>
    match integer? value with
    | none => false
    | some n =>
      c.minValue.all (fun least => decide (least ≤ n)) &&
        c.maxValue.all (fun most => decide (n ≤ most)) &&
        (!c.hasFixedSet || c.discreteValues.any fun v => integer? v == some n)

def toJson (c : DataConstraint) : Json.Value := .object (
  [("data_type", c.dataType.toJson)] ++
  Json.Value.optionalMember "max_length" (fun n => .nat n.toNat) c.maxLength ++
  Json.Value.optionalMember "min_value" (fun n => .int n.toInt) c.minValue ++
  Json.Value.optionalMember "max_value" (fun n => .int n.toInt) c.maxValue ++
  Json.Value.listMember "discrete_values" .string c.discreteValues ++
  [("fixed_values", .bool c.fixedValues)])

def decoder : Json.Decoder DataConstraint :=
  .record ["data_type", "max_length", "min_value", "max_value", "discrete_values", "fixed_values"]
    fun fields => DataConstraint.mk
      <$> fields.get "data_type" DataType.decoder (some .string)
      <*> fields.find? "max_length" .uint64
      <*> fields.find? "min_value" .int64
      <*> fields.find? "max_value" .int64
      <*> fields.list "discrete_values" .text
      <*> fields.get "fixed_values" .boolean (some false)

end DataConstraint

inductive Occurrence
  | exactlyOne
  | zeroOrOne
  | zeroOrMore
  | oneOrMore
deriving DecidableEq, Inhabited

namespace Occurrence

def indicator : Occurrence → String
  | exactlyOne => ""
  | zeroOrOne => "?"
  | zeroOrMore => "*"
  | oneOrMore => "+"

def jsonName : Occurrence → String
  | exactlyOne => "exactly-one"
  | zeroOrOne => "zero-or-one"
  | zeroOrMore => "zero-or-more"
  | oneOrMore => "one-or-more"

def all : List Occurrence := [exactlyOne, zeroOrOne, zeroOrMore, oneOrMore]

def toJson (o : Occurrence) : Json.Value := .string o.jsonName

def decoder : Json.Decoder Occurrence := .choice (all.map fun o => (o.jsonName, o))

end Occurrence

structure SequenceType where
  itemType : DataType
  occurrence : Occurrence
deriving DecidableEq, Inhabited

namespace SequenceType

def one (t : DataType) : SequenceType := ⟨t, .exactlyOne⟩

def itemConstraint (t : SequenceType) : DataConstraint := .ofType t.itemType

def text (t : SequenceType) : String := t.itemType.xsdName ++ t.occurrence.indicator

def toJson (t : SequenceType) : Json.Value :=
  .object [("item_type", t.itemType.toJson), ("occurrence", t.occurrence.toJson)]

def decoder : Json.Decoder SequenceType :=
  .record ["item_type", "occurrence"] fun fields => SequenceType.mk
    <$> fields.need "item_type" DataType.decoder
    <*> fields.get "occurrence" Occurrence.decoder (some .exactlyOne)

end SequenceType

end TaintScan
