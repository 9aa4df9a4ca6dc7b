namespace TaintScan.Text

def isBlank (c : Char) : Bool :=
  let n := c.toNat
  (9 ≤ n && n ≤ 13) || n == 0x20 || n == 0x85 || n == 0xA0 || n == 0x1680 ||
    (0x2000 ≤ n && n ≤ 0x200A) || n == 0x2028 || n == 0x2029 || n == 0x202F || n == 0x205F ||
    n == 0x3000

def trim (cs : List Char) : List Char :=
  ((cs.dropWhile isBlank).reverse.dropWhile isBlank).reverse

theorem isBlank_of_isWhitespace (c : Char) (h : c.isWhitespace = true) : isBlank c = true := by
  simp only [Char.isWhitespace, Bool.or_eq_true, decide_eq_true_eq] at h
  rcases h with ((rfl | rfl) | rfl) | rfl <;> decide

/-- Puts a character in front of the first word, or of a new word when the text began with a blank. -/
def addToWords (c : Char) (joined : Bool) (ws : List (List Char)) : List (List Char) :=
  if joined then
    match ws with
    | w :: rest => (c :: w) :: rest
    | [] => [[c]]
  else [c] :: ws

def words : List Char → List (List Char)
  | [] => []
  | c :: rest =>
    if isBlank c then words rest
    else addToWords c (match rest with | [] => false | d :: _ => !isBlank d) (words rest)

end TaintScan.Text
