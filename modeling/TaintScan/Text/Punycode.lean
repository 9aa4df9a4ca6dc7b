import TaintScan.Text.Ascii

namespace TaintScan.Text.Punycode

def digit? (c : Char) : Option Nat :=
  if c.isLower then some (c.toNat - 97)
  else if c.isDigit then some (c.toNat - 22)
  else none

def threshold (position bias : Nat) : Nat := max 1 (min 26 (position - bias))

def adaptTo (steps delta : Nat) : Nat :=
  if 455 < delta then adaptTo (steps + 36) (delta / 35) else steps + 36 * delta / (delta + 38)
termination_by delta
decreasing_by exact Nat.div_lt_self (by omega) (by omega)

def bias (delta length : Nat) (isFirst : Bool) : Nat :=
  let delta := if isFirst then delta / 700 else delta / 2
  adaptTo 0 (delta + delta / length)

def isSmall (n : Nat) : Bool := n < UInt32.size

def number? (bias : Nat) : (position weight value : Nat) → List Char → Option (Nat × List Char)
  | _, _, _, [] => none
  | position, weight, value, c :: rest =>
    match digit? c with
    | none => none
    | some d =>
      let value := value + d * weight
      let least := threshold position bias
      if !isSmall value then none
      else if d < least then some (value, rest)
      else if !isSmall (weight * (36 - least)) then none
      else number? bias (position + 36) (weight * (36 - least)) value rest

theorem length_number? {bias position weight value : Nat} {cs : List Char} {found : Nat × List Char}
    (h : number? bias position weight value cs = some found) : found.2.length < cs.length := by
  induction cs generalizing position weight value with
  | nil => simp [number?] at h
  | cons c rest ih =>
    rw [number?] at h
    split at h
    · simp at h
    · simp only at h
      split at h
      · simp at h
      · split at h
        · cases h
          simp
        · split at h
          · simp at h
          · exact Nat.lt_succ_of_lt (ih h)

def char? (n : Nat) : Option Char := if h : n.isValidChar then some (Char.ofNatAux n h) else none

/-- Inserts a character for each number. `state` counts the places gone through, from the first
place of the text of the first code point on. -/
def insertAll (bias codePoint state : Nat) (done : List Char) (cs : List Char) :
    Option (List Char) :=
  if cs.isEmpty then some done
  else
    match _h : number? bias 36 1 state cs with
    | none => none
    | some (next, rest) =>
      let length := done.length + 1
      match char? (codePoint + next / length) with
      | none => none
      | some c =>
        insertAll (Punycode.bias (next - state) length (state == 0)) (codePoint + next / length)
          (next % length + 1) (done.insertIdx (next % length) c) rest
termination_by cs.length
decreasing_by exact length_number? _h

/-- The ASCII characters and the numbers: the last hyphen stands between them, unless it is the very
first character. -/
def split (cs : List Char) : List Char × List Char :=
  match cs.reverse.span (· != '-') with
  | (behind, _ :: front) => if front.isEmpty then ([], cs) else (front.reverse, behind.reverse)
  | (_, []) => ([], cs)

def decode? (cs : List Char) : Option (List Char) :=
  let (ascii, numbers) := split cs
  insertAll 72 128 0 ascii numbers

end TaintScan.Text.Punycode
