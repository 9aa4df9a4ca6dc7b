import TaintScan.Id
import TaintScan.Text.Search
import Std.Data.HashMap

namespace TaintScan

structure Descriptor where
  object : ObjectId
  rule : RuleId
  value : String
  requested : Bool
  marker : Option String
deriving DecidableEq, Inhabited

namespace Descriptor

def isTracked (d : Descriptor) : Bool := d.marker.isSome

def isFoundIn (d : Descriptor) (text : String) : Bool :=
  match d.marker with
  | some marker => Text.contains text marker
  | none => false

def toJson (d : Descriptor) : Json.Value := .object (
  [("schema_object", d.object.toJson), ("rule", d.rule.toJson), ("value", .string d.value),
    ("requested", .bool d.requested)] ++
  Json.Value.optionalMember "marker" .string d.marker)

def decoder : Json.Decoder Descriptor :=
  .record ["schema_object", "rule", "value", "requested", "marker"] fun fields => Descriptor.mk
    <$> fields.need "schema_object" ObjectId.decoder
    <*> fields.need "rule" RuleId.decoder
    <*> fields.need "value" .text
    <*> fields.need "requested" .boolean
    <*> fields.find? "marker" .text

end Descriptor

/-- Descriptors in the order of generation. The indexes hold places in the list: the last of each
rule, and all of each object. -/
structure Ledger where
  descriptors : Array Descriptor
  lastOfRule : Std.HashMap RuleId Nat
  placesOfObject : Std.HashMap ObjectId (List Nat)

namespace Ledger

def empty : Ledger := ⟨#[], ∅, ∅⟩

instance : Inhabited Ledger := ⟨empty⟩

def record (l : Ledger) (d : Descriptor) : Ledger where
  descriptors := l.descriptors.push d
  lastOfRule := l.lastOfRule.insert d.rule l.descriptors.size
  placesOfObject :=
    l.placesOfObject.insert d.object (l.placesOfObject.getD d.object [] ++ [l.descriptors.size])

def ofList (ds : List Descriptor) : Ledger := ds.foldl record empty

def toList (l : Ledger) : List Descriptor := l.descriptors.toList

def size (l : Ledger) : Nat := l.descriptors.size

def byRule? (l : Ledger) (rule : RuleId) : Option Descriptor :=
  l.lastOfRule[rule]?.bind fun place => l.descriptors[place]?

def byObject (l : Ledger) (object : ObjectId) : List Descriptor :=
  (l.placesOfObject.getD object []).filterMap fun place => l.descriptors[place]?

def tracked (l : Ledger) : List Descriptor := l.toList.filter Descriptor.isTracked

def findIn (l : Ledger) (text : String) : List Descriptor :=
  l.tracked.filter fun d => d.isFoundIn text

end Ledger

end TaintScan
