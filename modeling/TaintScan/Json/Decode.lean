import TaintScan.Json.Reader
import TaintScan.Json.Value

namespace TaintScan.Json

abbrev Decoder (α : Type) := (room : Nat) → Tree → Except Fault α

def nestingLimit : Nat := 127

namespace Decoder

def mismatch : Tree → Fault
  | .number n => if n.float?.isSome then .unfit else .malformed
  | .string none => .malformed
  | .broken fault _ _ => fault
  | _ => .unfit

def fitting (tree : Tree) (value : Option α) : Except Fault α :=
  match value with
  | some a => .ok a
  | none => .error (mismatch tree)

def text : Decoder String := fun _ tree =>
  match tree with
  | .string (some s) => .ok s
  | _ => .error (mismatch tree)

def textAs (read : String → Option α) : Decoder α := fun room tree =>
  match text room tree with
  | .ok s => fitting (.string (some s)) (read s)
  | .error fault => .error fault

def boolean : Decoder Bool := fun _ tree =>
  match tree with
  | .bool b => .ok b
  | _ => .error (mismatch tree)

def integer (low high : Int) : Decoder Int := fun _ tree =>
  match tree with
  | .number n =>
    match n.integer? with
    | some i => if low ≤ i ∧ i ≤ high then .ok i else .error .unfit
    | none => .error (mismatch tree)
  | _ => .error (mismatch tree)

def uint32 : Decoder UInt32 := fun room tree =>
  (integer 0 (UInt32.size - 1 : Nat) room tree).map fun i => UInt32.ofNat i.toNat

def uint64 : Decoder UInt64 := fun room tree =>
  (integer 0 (UInt64.size - 1 : Nat) room tree).map fun i => UInt64.ofNat i.toNat

def int64 : Decoder Int64 := fun room tree =>
  (integer Int64.minValue.toInt Int64.maxValue.toInt room tree).map Int64.ofInt

def float : Decoder Float := fun _ tree =>
  match tree with
  | .number n =>
    match n.float? with
    | some f => .ok f
    | none => .error .malformed
  | _ => .error (mismatch tree)

def optional (d : Decoder α) : Decoder (Option α) := fun room tree =>
  match tree with
  | .null => .ok none
  | _ => (d room tree).map some

def items (d : Decoder α) (room : Nat) (ending : Option Fault) : List Tree → Except Fault (List α)
  | [] =>
    match ending with
    | none => .ok []
    | some fault => .error fault
  | tree :: rest =>
    match d room tree with
    | .error fault => .error fault
    | .ok a => (items d room ending rest).map (a :: ·)

def list (d : Decoder α) : Decoder (List α) := fun room tree =>
  match tree, room with
  | .array trees ending, room + 1 => items d room ending trees
  | .array _ _, 0 => .error .malformed
  | _, _ => .error (mismatch tree)

def named (table : List (String × α)) (name : String) : Except Fault α :=
  match table.lookup name with
  | some a => .ok a
  | none => .error .unfit

/-- A choice, written as its name or as an object whose only member has that name and null for a
value. Anything but a string or an object is malformed. -/
def choice (table : List (String × α)) : Decoder α := fun room tree =>
  match tree with
  | .string (some name) => named table name
  | .object members ending =>
    if room = 0 then .error .malformed
    else
      match members with
      | [] => .error (ending.getD .malformed)
      | (key, value) :: rest =>
        match text room key with
        | .error fault => .error fault
        | .ok name =>
          match named table name with
          | .error fault => .error fault
          | .ok a =>
            match value, rest, ending with
            | .null, [], none => .ok a
            | .null, [], some fault => .error fault
            | .null, _ :: _, _ => .error .malformed
            | _, _, _ => .error (mismatch value)
  | .broken _ _ fault => .error fault
  | _ => .error .malformed

end Decoder

structure Problem where
  place : Nat
  fault : Fault
deriving DecidableEq

def Reading (α : Type) := Except Problem α

namespace Reading

def ok (a : α) : Reading α := Except.ok a

def fail (place : Nat) (fault : Fault) : Reading α := Except.error ⟨place, fault⟩

def apply (f : Reading (α → β)) (x : Reading α) : Reading β :=
  match f, x with
  | .ok f, .ok a => .ok (f a)
  | .ok _, .error q => .error q
  | .error p, .ok _ => .error p
  | .error p, .error q => .error (if q.place < p.place then q else p)

instance : Pure Reading := ⟨ok⟩

instance : Functor Reading := ⟨fun f x => apply (ok f) x, fun a x => apply (ok fun _ => a) x⟩

instance : Seq Reading := ⟨fun f x => apply f (x ())⟩

end Reading

/-- The fields of a record as they stand in a text: each value with its place, the nesting still
allowed, where a missing field is noticed, and the first problem in what is around the values. -/
structure Fields where
  find : String → Option (Nat × Tree)
  room : Nat
  finish : Nat
  flaw : Option Problem

namespace Fields

def findMember (name : String) : Nat → List (Tree × Tree) → Option (Nat × Tree)
  | _, [] => none
  | place, (key, value) :: rest =>
    match key with
    | .string (some s) => if s == name then some (place, value) else findMember name (place + 1) rest
    | _ => findMember name (place + 1) rest

/-- The first problem around the values of an object: a key that is none, a field given twice, an
unknown member that cannot be skipped, or the ending. -/
def objectFlaw (names : List String) (ending : Option Fault) :
    Nat → List String → List (Tree × Tree) → Option Problem
  | place, _, [] => ending.map fun fault => ⟨place, fault⟩
  | place, seen, (key, value) :: rest =>
    match key with
    | .string (some name) =>
      if names.contains name then
        if seen.contains name then some ⟨place, .unfit⟩
        else objectFlaw names ending (place + 1) (name :: seen) rest
      else
        match value.skipFault with
        | some fault => some ⟨place, fault⟩
        | none => objectFlaw names ending (place + 1) seen rest
    | .broken fault _ _ => some ⟨place, fault⟩
    | _ => some ⟨place, .malformed⟩

def ofObject (names : List String) (room : Nat) (members : List (Tree × Tree))
    (ending : Option Fault) : Fields where
  find name := findMember name 0 members
  room := room
  finish := members.length + 1
  flaw := objectFlaw names ending 0 [] members

def arrayFlaw (names : List String) (items : List Tree) (ending : Option Fault) : Option Problem :=
  if names.length < items.length then some ⟨names.length, .malformed⟩
  else ending.map fun fault => ⟨items.length, fault⟩

def ofArray (names : List String) (room : Nat) (items : List Tree) (ending : Option Fault) :
    Fields where
  find name :=
    (names.idxOf? name).bind fun place => (items[place]?).map fun item => (place, item)
  room := room
  finish := items.length + 1
  flaw := arrayFlaw names items ending

def get (fields : Fields) (name : String) (d : Decoder α) (default : Option α) : Reading α :=
  match fields.find name with
  | some (place, tree) =>
    match d fields.room tree with
    | .ok a => Reading.ok a
    | .error fault => Reading.fail place fault
  | none =>
    match default with
    | some a => Reading.ok a
    | none => Reading.fail fields.finish .unfit

def need (fields : Fields) (name : String) (d : Decoder α) : Reading α := fields.get name d none

def find? (fields : Fields) (name : String) (d : Decoder α) : Reading (Option α) :=
  fields.get name (Decoder.optional d) (some none)

def list (fields : Fields) (name : String) (d : Decoder α) : Reading (List α) :=
  fields.get name (Decoder.list d) (some [])

def conclude (fields : Fields) (reading : Reading α) : Except Fault α :=
  match fields.flaw, reading with
  | none, .ok a => .ok a
  | none, .error q => .error q.fault
  | some p, .ok _ => .error p.fault
  | some p, .error q => .error (if q.place < p.place then q.fault else p.fault)

end Fields

namespace Decoder

def record (names : List String) (read : Fields → Reading α) : Decoder α := fun room tree =>
  match tree, room with
  | .object members ending, room + 1 =>
    let fields := Fields.ofObject names room members ending
    fields.conclude (read fields)
  | .array items ending, room + 1 =>
    let fields := Fields.ofArray names room items ending
    fields.conclude (read fields)
  | .object _ _, 0 => .error .malformed
  | .array _ _, 0 => .error .malformed
  | _, _ => .error (mismatch tree)

def entries (key : String → Option κ) (d : Decoder α) (room : Nat) (ending : Option Fault) :
    List (Tree × Tree) → Except Fault (List (κ × α))
  | [] =>
    match ending with
    | none => .ok []
    | some fault => .error fault
  | (name, value) :: rest =>
    match name with
    | .string (some s) =>
      match key s with
      | none => .error .unfit
      | some k =>
        match d room value with
        | .error fault => .error fault
        | .ok a => (entries key d room ending rest).map ((k, a) :: ·)
    | .broken fault _ _ => .error fault
    | _ => .error .malformed

def table (key : String → Option κ) (d : Decoder α) : Decoder (List (κ × α)) := fun room tree =>
  match tree, room with
  | .object members ending, room + 1 => entries key d room ending members
  | .object _ _, 0 => .error .malformed
  | _, _ => .error (mismatch tree)

def ofTree (d : Decoder α) (tree : Tree) : Except Fault α := d nestingLimit tree

def ofText (d : Decoder α) (text : String) : Except Fault α :=
  let document := readDocument text.toList
  match d.ofTree document.tree with
  | .error fault => .error fault
  | .ok a => if document.trailing then .error .malformed else .ok a

end Decoder

end TaintScan.Json
