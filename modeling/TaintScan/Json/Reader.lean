import TaintScan.Json.Tree
import TaintScan.Text.Ascii
import TaintScan.Text.Utf8

namespace TaintScan.Json

def isSpace (c : Char) : Bool := c == ' ' || c == '\n' || c == '\t' || c == '\r'

def skipSpace (cs : List Char) : List Char := cs.dropWhile isSpace

def faultAt : List Char → Fault
  | [] => .ended
  | _ => .malformed

inductive Piece
  | char (c : Char)
  | unit (value : Nat)
deriving DecidableEq

structure StringScan where
  pieces : List Piece
  rest : Except Fault (List Char)

namespace StringScan

def push (p : Piece) (s : StringScan) : StringScan := ⟨p :: s.pieces, s.rest⟩

end StringScan

def shortEscape? (c : Char) : Option Char :=
  if c == '"' then some '"'
  else if c == '\\' then some '\\'
  else if c == '/' then some '/'
  else if c == 'b' then some '\x08'
  else if c == 'f' then some '\x0c'
  else if c == 'n' then some '\n'
  else if c == 'r' then some '\r'
  else if c == 't' then some '\t'
  else none

def codeUnit? (cs : List Char) : Option Nat :=
  (cs.mapM Text.hexValue?).map fun ds => ds.foldl (fun n d => n * 16 + d) 0

def scanString : List Char → StringScan
  | [] => ⟨[], .error .ended⟩
  | '"' :: rest => ⟨[], .ok rest⟩
  | ['\\'] => ⟨[], .error .ended⟩
  | '\\' :: 'u' :: a :: b :: c :: d :: rest =>
    match codeUnit? [a, b, c, d] with
    | some value => (scanString rest).push (.unit value)
    | none => ⟨[], .error .malformed⟩
  | '\\' :: 'u' :: rest => ⟨[], .error (if Text.byteCount rest < 4 then .ended else .malformed)⟩
  | '\\' :: e :: rest =>
    match shortEscape? e with
    | some c => (scanString rest).push (.char c)
    | none => ⟨[], .error .malformed⟩
  | c :: rest =>
    if c.toNat < 0x20 then ⟨[], .error .malformed⟩ else (scanString rest).push (.char c)

def isLeading (value : Nat) : Bool := 0xD800 ≤ value && value ≤ 0xDBFF

def isTrailing (value : Nat) : Bool := 0xDC00 ≤ value && value ≤ 0xDFFF

/-- The text of pieces: escaped surrogates must stand in pairs. When the pieces were cut short, the
last may begin a pair. -/
def joinPieces (cut : Bool) : List Piece → Option (List Char)
  | [] => some []
  | .char c :: rest => (joinPieces cut rest).map (c :: ·)
  | [.unit value] =>
    if isTrailing value then none
    else if isLeading value then (if cut then some [] else none)
    else some [Char.ofNat value]
  | .unit value :: .char c :: rest =>
    if isTrailing value || isLeading value then none
    else (joinPieces cut (.char c :: rest)).map (Char.ofNat value :: ·)
  | .unit value :: .unit next :: rest =>
    if isTrailing value then none
    else if isLeading value then
      if isTrailing next then
        (joinPieces cut rest).map
          (Char.ofNat (0x10000 + (value - 0xD800) * 0x400 + (next - 0xDC00)) :: ·)
      else none
    else (joinPieces cut (.unit next :: rest)).map (Char.ofNat value :: ·)

def readString (cs : List Char) : Tree × Option (List Char) :=
  let s := scanString cs
  match s.rest with
  | .ok rest => (.string ((joinPieces false s.pieces).map String.ofList), some rest)
  | .error fault =>
    let read := if (joinPieces true s.pieces).isSome then fault else .malformed
    (.broken read fault read, none)

def leadingDigits (cs : List Char) : List Char × List Char := cs.span Char.isDigit

def digitMissing (cs : List Char) : Tree × Option (List Char) :=
  (.broken (faultAt cs) .malformed .malformed, none)

def readExponent (n : Numeral) (cs : List Char) : Tree × Option (List Char) :=
  let (sign, cs) : Int × List Char :=
    match cs with
    | '+' :: rest => (1, rest)
    | '-' :: rest => (-1, rest)
    | _ => (1, cs)
  match leadingDigits cs with
  | ([], rest) => digitMissing rest
  | (ds, rest) =>
    (.number { n with exponent := some (sign * (Nat.ofDigitChars 10 ds 0 : Nat)) }, some rest)

def readAfterDigits (n : Numeral) : List Char → Tree × Option (List Char)
  | 'e' :: rest => readExponent n rest
  | 'E' :: rest => readExponent n rest
  | cs => (.number n, some cs)

def readAfterWhole (n : Numeral) : List Char → Tree × Option (List Char)
  | '.' :: cs =>
    match leadingDigits cs with
    | ([], rest) => digitMissing rest
    | (ds, rest) => readAfterDigits { n with fraction := ds.filterMap Numeral.digit? } rest
  | cs => readAfterDigits n cs

def readNumber (negative : Bool) (cs : List Char) : Tree × Option (List Char) :=
  match leadingDigits cs with
  | ([], rest) => digitMissing rest
  | ('0' :: _ :: _, _) => (.broken .malformed .malformed .malformed, none)
  | (ds, rest) => readAfterWhole ⟨negative, Nat.ofDigitChars 10 ds 0, [], none⟩ rest

def readLiteral (value : Tree) : List Char → List Char → Tree × Option (List Char)
  | [], cs => (value, some cs)
  | _ :: _, [] => (.broken .ended .ended .malformed, none)
  | l :: letters, c :: cs =>
    if l == c then readLiteral value letters cs
    else (.broken .malformed .malformed .malformed, none)

def missing (cs : List Char) : Tree × Option (List Char) :=
  (.broken (faultAt cs) (faultAt cs) (faultAt cs), none)

def readScalar : List Char → Tree × Option (List Char)
  | '"' :: rest => readString rest
  | 'n' :: rest => readLiteral .null ['u', 'l', 'l'] rest
  | 't' :: rest => readLiteral (.bool true) ['r', 'u', 'e'] rest
  | 'f' :: rest => readLiteral (.bool false) ['a', 'l', 's', 'e'] rest
  | '-' :: rest => readNumber true rest
  | c :: rest => if c.isDigit then readNumber false (c :: rest) else missing (c :: rest)
  | [] => missing []

mutual

/-- Reads a value. The budget bounds the number of nested steps; twice the length of the text is
enough. The rest is there when the value is complete. -/
def readValue : Nat → List Char → Tree × Option (List Char)
  | 0, cs => missing cs
  | budget + 1, cs =>
    match skipSpace cs with
    | '[' :: rest =>
      match skipSpace rest with
      | ']' :: rest => (.array [] none, some rest)
      | [] => (.array [] (some .ended), none)
      | cs =>
        let (items, ending, rest) := readItems budget cs
        (.array items ending, rest)
    | '{' :: rest =>
      match skipSpace rest with
      | '}' :: rest => (.object [] none, some rest)
      | [] => (.object [] (some .ended), none)
      | cs =>
        let (members, ending, rest) := readMembers budget cs
        (.object members ending, rest)
    | cs => readScalar cs

def readItems : Nat → List Char → List Tree × Option Fault × Option (List Char)
  | 0, cs => ([], some (faultAt cs), none)
  | budget + 1, cs =>
    match readValue budget cs with
    | (item, none) => ([item], some .malformed, none)
    | (item, some rest) =>
      match skipSpace rest with
      | ']' :: rest => ([item], none, some rest)
      | ',' :: rest =>
        let (items, ending, rest) := readItems budget rest
        (item :: items, ending, rest)
      | cs => ([item], some (faultAt cs), none)

def readMembers : Nat → List Char → List (Tree × Tree) × Option Fault × Option (List Char)
  | 0, cs => ([], some (faultAt cs), none)
  | budget + 1, cs =>
    match skipSpace cs with
    | '"' :: cs =>
      match readString cs with
      | (key, none) => ([(key, .null)], some .malformed, none)
      | (key, some rest) =>
        match skipSpace rest with
        | ':' :: rest =>
          match readValue budget rest with
          | (value, none) => ([(key, value)], some .malformed, none)
          | (value, some rest) =>
            match skipSpace rest with
            | '}' :: rest => ([(key, value)], none, some rest)
            | ',' :: rest =>
              let (members, ending, rest) := readMembers budget rest
              ((key, value) :: members, ending, rest)
            | cs => ([(key, value)], some (faultAt cs), none)
        | cs => ([(key, (missing cs).1)], some .malformed, none)
    | [] => ([((missing []).1, .null)], some .ended, none)
    | _ => ([(.broken .malformed .malformed .malformed, .null)], some .malformed, none)

end

structure Document where
  tree : Tree
  trailing : Bool

def readDocument (cs : List Char) : Document :=
  match readValue (2 * cs.length + 2) cs with
  | (tree, none) => ⟨tree, false⟩
  | (tree, some rest) => ⟨tree, !(skipSpace rest).isEmpty⟩

end TaintScan.Json
