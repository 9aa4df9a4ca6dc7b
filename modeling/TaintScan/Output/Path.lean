import TaintScan.Json.Decode
import TaintScan.Output.Tree
import TaintScan.Text.Number

namespace TaintScan

structure NodePath where
  indices : List Nat
deriving DecidableEq, Inhabited

namespace NodePath

def root : NodePath := ⟨[]⟩

def child (p : NodePath) (index : Nat) : NodePath := ⟨p.indices ++ [index]⟩

def follow (e : Element) : List Nat → Option Element
  | [] => some e
  | index :: rest =>
    match e.childElements[index]? with
    | some child => follow child rest
    | none => none

/-- The element that indices lead to from the top level. No indices lead nowhere. -/
def locate (o : Output) : List Nat → Option Element
  | [] => none
  | index :: rest =>
    match o.elements[index]? with
    | some e => follow e rest
    | none => none

def resolve (p : NodePath) (o : Output) : Option Element := locate o p.indices

def indexText (index : Nat) : String := String.ofList (Text.natural index)

def text (p : NodePath) : String :=
  if p.indices.isEmpty then "/" else String.join (p.indices.map fun i => "/" ++ indexText i)

def stepText (found : Option Element) (index : Nat) : String :=
  "/" ++ (match found with
    | some e => e.name
    | none => "*") ++ "[" ++ indexText index ++ "]"

def describeSteps : List Element → List Nat → String
  | _, [] => ""
  | candidates, index :: rest =>
    let found := candidates[index]?
    stepText found index ++
      describeSteps (match found with
        | some e => e.childElements
        | none => []) rest

def describe (p : NodePath) (o : Output) : String :=
  if p.indices.isEmpty then "/" else describeSteps o.elements p.indices

def toJson (p : NodePath) : Json.Value := .array (p.indices.map Json.Value.nat)

def decoder : Json.Decoder NodePath := fun room tree =>
  (Json.Decoder.list .uint64 room tree).map fun indices => ⟨indices.map UInt64.toNat⟩

end NodePath

end TaintScan
