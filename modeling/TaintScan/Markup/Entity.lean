import TaintScan.Text.Ascii

namespace TaintScan.Markup

def escapeChar (c : Char) : List Char :=
  if c == '<' then "&lt;".toList
  else if c == '>' then "&gt;".toList
  else if c == '&' then "&amp;".toList
  else if c == '\x27' then "&apos;".toList
  else if c == '"' then "&quot;".toList
  else [c]

def escape (cs : List Char) : List Char := cs.flatMap escapeChar

def namedEntity? (name : List Char) : Option Char :=
  if name == "lt".toList then some '<'
  else if name == "gt".toList then some '>'
  else if name == "amp".toList then some '&'
  else if name == "apos".toList then some '\x27'
  else if name == "quot".toList then some '"'
  else none

def codePoint? (base most : Nat) (digits : List Char) : Option Nat :=
  if digits.length ≤ most then
    (digits.mapM fun c => (Text.hexValue? c).filter (· < base)).map fun ds =>
      ds.foldl (fun n d => n * base + d) 0
  else none

def charOfCode? (code : Nat) : Option Char :=
  if code ≠ 0 ∧ code.isValidChar then some (Char.ofNat code) else none

def reference? (name : List Char) : Option Char :=
  match name with
  | '#' :: 'x' :: digits => (codePoint? 16 6 digits).bind charOfCode?
  | '#' :: digits => (codePoint? 10 7 digits).bind charOfCode?
  | _ => namedEntity? name

def endsReference (c : Char) : Bool := c == '&' || c == ';'

def unescape : List Char → Option (List Char)
  | [] => some []
  | c :: rest =>
    if c == '&' then
      match rest.dropWhile fun d => !endsReference d with
      | ';' :: _ =>
        match reference? (rest.takeWhile fun d => !endsReference d) with
        | some d => (unescape ((rest.dropWhile fun d => !endsReference d).drop 1)).map (d :: ·)
        | none => none
      | _ => none
    else (unescape rest).map (c :: ·)
termination_by cs => cs.length
decreasing_by
  · have := (List.dropWhile_suffix (l := rest) fun d => !endsReference d).length_le
    simp only [List.length_drop, List.length_cons]
    omega
  · simp

end TaintScan.Markup
