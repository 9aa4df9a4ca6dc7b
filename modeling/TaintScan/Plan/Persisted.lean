import TaintScan.Error
import TaintScan.Plan.Basic

namespace TaintScan

open Json (Decoder Tree Fault Value)

namespace RawMode

def toJson (m : RawMode) : Value := .string m.jsonName

def table : List (String × RawMode) := [("FULL", full), ("RESTRICTED", restricted)]

def decoder : Decoder RawMode := .choice table

end RawMode

namespace ScalarRule

def members (targetName : String) (r : ScalarRule) : List (String × Value) :=
  [("id", r.id.toJson), (targetName, r.target.toJson)] ++
    Value.optionalMember "requested_value" .string r.requested

def toJson (targetName : String) (r : ScalarRule) : Value := .object (r.members targetName)

def decoder (targetName : String) : Decoder ScalarRule :=
  .record ["id", targetName, "requested_value"] fun fields => ScalarRule.mk
    <$> fields.need "id" RuleId.decoder
    <*> fields.need targetName ObjectId.decoder
    <*> fields.find? "requested_value" .text

end ScalarRule

namespace ContentRule

inductive Kind
  | element
  | data
  | raw
deriving DecidableEq

def Kind.table : List (String × Kind) := [("element", .element), ("data", .data), ("raw", .raw)]

mutual

def toJson : ContentRule → Value
  | element id reference attributes content => .object (
    [("kind", .string "element"), ("id", id.toJson), ("reference", reference.toJson)] ++
    Value.listMember "attributes" (ScalarRule.toJson "attribute") attributes ++
    (match content with
      | [] => []
      | c :: rest => [("content", .array (toJson c :: toJsonAll rest))]))
  | data r => .object (("kind", .string "data") :: r.members "element_type")
  | raw r mode => .object (
    ("kind", .string "raw") :: r.members "element_type" ++ [("mode", mode.toJson)])

def toJsonAll : List ContentRule → List Value
  | [] => []
  | c :: rest => toJson c :: toJsonAll rest

end

mutual

def wholeFault (room : Nat) : Tree → Option Fault
  | .null => none
  | .bool _ => none
  | .number n => if n.float?.isSome then none else some .malformed
  | .string (some _) => none
  | .string none => some .malformed
  | .array items ending =>
    if room = 0 then some .malformed else (wholeFaultItems (room - 1) items).or ending
  | .object members ending =>
    if room = 0 then some .malformed else (wholeFaultMembers (room - 1) members).or ending
  | .broken fault _ _ => some fault

def wholeFaultItems (room : Nat) : List Tree → Option Fault
  | [] => none
  | item :: rest => (wholeFault room item).or (wholeFaultItems room rest)

def wholeFaultMembers (room : Nat) : List (Tree × Tree) → Option Fault
  | [] => none
  | (key, value) :: rest =>
    (wholeFaultKey key).or ((wholeFault room value).or (wholeFaultMembers room rest))

def wholeFaultKey : Tree → Option Fault
  | .string (some _) => none
  | .broken fault _ _ => some fault
  | _ => some .malformed

end

def kindOf (tree : Tree) : Except Fault Kind :=
  match Decoder.text 0 tree with
  | .error fault => .error fault
  | .ok name => Decoder.named Kind.table name

/-- The first problem of the members of a content rule: its kind is read where it stands, and
everything else whole. -/
def taggedFault (room : Nat) (ending : Option Fault) : Bool → List (Tree × Tree) → Option Fault
  | seen, [] => ending.or (if seen then none else some .unfit)
  | seen, (key, value) :: rest =>
    match key with
    | .string (some "kind") =>
      if seen then some .unfit
      else
        match kindOf value with
        | .error fault => some fault
        | .ok _ => taggedFault room ending true rest
    | _ =>
      (wholeFaultKey key).or ((wholeFault room value).or (taggedFault room ending seen rest))

def taggedItemsFault (room : Nat) (ending : Option Fault) : List Tree → Option Fault
  | [] => ending.or (some .unfit)
  | kind :: rest =>
    match kindOf kind with
    | .error fault => some fault
    | .ok _ => (wholeFaultItems room rest).or ending

def firstFault : Nat → Tree → Option Fault
  | 0, .object _ _ => some .malformed
  | 0, .array _ _ => some .malformed
  | room + 1, .object members ending => taggedFault room ending false members
  | room + 1, .array items ending => taggedItemsFault room ending items
  | _, tree => some (Decoder.mismatch tree)

def wholeMode : Decoder RawMode := fun room tree =>
  match tree with
  | .object [(key, .object [] none)] none => RawMode.decoder room (.object [(key, .null)] none)
  | _ => RawMode.decoder room tree

def isNotKind (m : Tree × Tree) : Bool :=
  match m.1 with
  | .string (some "kind") => false
  | _ => true

def wholeKind? : Tree → Option Kind
  | .string (some name) => Kind.table.lookup name
  | .number n =>
    match n.integer? with
    | some 0 => some .element
    | some 1 => some .data
    | some 2 => some .raw
    | _ => none
  | _ => none

def untagged? : Tree → Option (Kind × Tree)
  | .object members ending =>
    match members.filter fun m => !isNotKind m with
    | [(_, kind)] => (wholeKind? kind).map fun k => (k, .object (members.filter isNotKind) ending)
    | _ => none
  | .array (kind :: rest) ending => (wholeKind? kind).map fun k => (k, .array rest ending)
  | _ => none

/-- Reads a content rule that is known to be well formed. The budget bounds how deep elements
nest. -/
def wholeDecoder : Nat → Decoder ContentRule
  | 0 => fun _ _ => .error .malformed
  | budget + 1 => fun room tree =>
    match untagged? tree with
    | none => .error .unfit
    | some (.element, tree) =>
      Decoder.record ["id", "reference", "attributes", "content"] (fun fields => ContentRule.element
        <$> fields.need "id" RuleId.decoder
        <*> fields.need "reference" ObjectId.decoder
        <*> fields.list "attributes" (ScalarRule.decoder "attribute")
        <*> fields.list "content" (wholeDecoder budget)) room tree
    | some (.data, tree) => (ScalarRule.decoder "element_type" room tree).map data
    | some (.raw, tree) =>
      Decoder.record ["id", "element_type", "requested_value", "mode"] (fun fields =>
        (fun id target requested mode => raw ⟨id, target, requested⟩ mode)
          <$> fields.need "id" RuleId.decoder
          <*> fields.need "element_type" ObjectId.decoder
          <*> fields.find? "requested_value" .text
          <*> fields.need "mode" wholeMode) room tree

def decoder : Decoder ContentRule := fun room tree =>
  match firstFault room tree with
  | some fault => .error fault
  | none =>
    match wholeDecoder (Json.nestingLimit + 1) room tree with
    | .ok c => .ok c
    | .error _ => .error .unfit

end ContentRule

namespace ElementRule

def toJson (e : ElementRule) : Value := .object (
  [("id", e.id.toJson), ("reference", e.reference.toJson)] ++
  Value.listMember "attributes" (ScalarRule.toJson "attribute") e.attributes ++
  Value.listMember "content" ContentRule.toJson e.content)

def decoder : Decoder ElementRule :=
  .record ["id", "reference", "attributes", "content"] fun fields => ElementRule.mk
    <$> fields.need "id" RuleId.decoder
    <*> fields.need "reference" ObjectId.decoder
    <*> fields.list "attributes" (ScalarRule.decoder "attribute")
    <*> fields.list "content" ContentRule.decoder

end ElementRule

namespace Plan

def requestedMember (values : OrderedMap ObjectId String) : List (String × Value) :=
  match values.entries with
  | [] => []
  | entries => [("requested_values", .object (entries.map fun e => (e.1.text, .string e.2)))]

def requestedDecoder : Decoder (OrderedMap ObjectId String) := fun room tree =>
  (Decoder.table ObjectId.ofText? Decoder.text room tree).map .ofEntries

def toJson (p : Plan) : Value := .object (
  [("stylesheet_uri", .string p.stylesheet), ("schema_version", .nat p.version.toNat),
    ("value_seed", .nat p.valueSeed.toNat), ("root", p.root.toJson)] ++
  Value.listMember "extension_functions" (ScalarRule.toJson "function") p.functions ++
  Value.listMember "stylesheet_parameters" (ScalarRule.toJson "parameter") p.parameters ++
  requestedMember p.requestedValues)

def decoder : Decoder Plan :=
  .record ["stylesheet_uri", "schema_version", "value_seed", "root", "extension_functions",
      "stylesheet_parameters", "requested_values"]
    fun fields => Plan.mk
      <$> fields.need "stylesheet_uri" .text
      <*> fields.need "schema_version" .uint32
      <*> fields.need "value_seed" .uint64
      <*> fields.need "root" ElementRule.decoder
      <*> fields.list "extension_functions" (ScalarRule.decoder "function")
      <*> fields.list "stylesheet_parameters" (ScalarRule.decoder "parameter")
      <*> fields.get "requested_values" requestedDecoder (some .empty)

def jsonText (p : Plan) : String := p.toJson.pretty

def read (read : Except Fault Plan) : Except Error Plan := read.mapError .json

def ofJsonText (text : String) : Except Error Plan := read (decoder.ofText text)

def ofJsonTree (tree : Tree) : Except Error Plan := read (decoder.ofTree tree)

end Plan

end TaintScan
