namespace TaintScan.Name

/-- A character a name may begin with: an ASCII letter, an underscore, or a Latin-1 letter up to
U+00F6. -/
def isStart (c : Char) : Bool :=
  c.isAlpha || c == '_' || ('\u00C0' ≤ c && c ≤ '\u00D6') || ('\u00D8' ≤ c && c ≤ '\u00F6')

def isPart (c : Char) : Bool :=
  isStart c || c.isDigit || c == '-' || c == '.' || c == '\u00B7'

def isUncoloned : List Char → Bool
  | [] => false
  | c :: rest => isStart c && rest.all isPart

def isQualified (cs : List Char) : Bool :=
  match cs.span (· != ':') with
  | (whole, []) => isUncoloned whole
  | (first, _ :: second) => isUncoloned first && isUncoloned second

def isMarkerChar (c : Char) : Bool := c.isLower || c.isDigit

/-- Lowercase ASCII letters and digits, beginning with a letter: usable as an element name, an
attribute name and a host label. -/
def isMarkerSafe : List Char → Bool
  | [] => false
  | c :: rest => c.isLower && rest.all isMarkerChar

theorem isUncoloned_of_isMarkerSafe {cs : List Char} (h : isMarkerSafe cs = true) :
    isUncoloned cs = true := by
  cases cs with
  | nil => simp [isMarkerSafe] at h
  | cons c rest =>
    simp only [isMarkerSafe, Bool.and_eq_true, List.all_eq_true] at h
    simp only [isUncoloned, Bool.and_eq_true, List.all_eq_true]
    have alpha (c : Char) : c.isAlpha = (c.isUpper || c.isLower) := rfl
    refine ⟨by simp [isStart, alpha, h.1], fun d hd => ?_⟩
    rcases Bool.or_eq_true _ _ |>.mp (h.2 d hd) with lower | digit
    · simp [isPart, isStart, alpha, lower]
    · simp [isPart, digit]

end TaintScan.Name
