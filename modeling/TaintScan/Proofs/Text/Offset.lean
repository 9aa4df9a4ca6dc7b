import TaintScan.Text.Search
import TaintScan.Text.Utf8

namespace TaintScan.Text

variable {c : Char} {piece cs before behind : List Char} {n : Nat}

theorem byteCount_append (front back : List Char) :
    byteCount (front ++ back) = byteCount front + byteCount back := by
  rw [byteCount_eq, byteCount_eq, byteCount_eq, String.ofList_append, String.utf8ByteSize_append]

theorem byteCount_cons (c : Char) (rest : List Char) :
    byteCount (c :: rest) = c.utf8Size + byteCount rest := by
  have single : byteCount [c] = c.utf8Size := by simp [byteCount]
  rw [← List.singleton_append, byteCount_append, single]

/-- The text before and behind a byte offset. There is none if the offset is inside a character or
behind the end. -/
def cutAt? : List Char → Nat → Option (List Char × List Char)
  | cs, 0 => some ([], cs)
  | [], _ + 1 => none
  | c :: rest, n + 1 =>
    if c.utf8Size ≤ n + 1 then
      (cutAt? rest (n + 1 - c.utf8Size)).map fun (before, behind) => (c :: before, behind)
    else none

theorem cutAt?_append (before behind : List Char) :
    cutAt? (before ++ behind) (byteCount before) = some (before, behind) := by
  induction before with
  | nil => cases behind <;> rfl
  | cons c rest ih =>
    have size := c.utf8Size_pos
    obtain ⟨n, count⟩ : ∃ n, c.utf8Size + byteCount rest = n + 1 :=
      Nat.exists_eq_add_one_of_ne_zero (by omega)
    have left : n + 1 - c.utf8Size = byteCount rest := by omega
    rw [byteCount_cons, count, List.cons_append, cutAt?, if_pos (by omega), left, ih]
    rfl

theorem cutAt?_eq_some_iff :
    cutAt? cs n = some (before, behind) ↔ before ++ behind = cs ∧ byteCount before = n := by
  constructor
  · intro h
    fun_induction cutAt? cs n generalizing before with
    | case1 cs =>
      cases h
      exact ⟨rfl, rfl⟩
    | case2 n => cases h
    | case3 c rest n fits ih =>
      obtain ⟨⟨before', behind'⟩, cut, same⟩ := Option.map_eq_some_iff.mp h
      cases same
      obtain ⟨whole, count⟩ := ih cut
      refine ⟨congrArg (c :: ·) whole, ?_⟩
      rw [byteCount_cons, count]
      omega
    | case4 c rest n outside => cases h
  · rintro ⟨rfl, rfl⟩
    exact cutAt?_append before behind

theorem le_byteCount_of_cutAt? {parts : List Char × List Char} (h : cutAt? cs n = some parts) :
    n ≤ byteCount cs := by
  obtain ⟨before, behind⟩ := parts
  obtain ⟨rfl, rfl⟩ := cutAt?_eq_some_iff.mp h
  rw [byteCount_append]
  exact Nat.le_add_right _ _

def slice? (cs : List Char) (start stop : Nat) : Option (List Char) :=
  (cutAt? cs stop).bind fun (front, _) => (cutAt? front start).map Prod.snd

theorem slice?_append (before middle behind : List Char) :
    slice? (before ++ middle ++ behind) (byteCount before) (byteCount (before ++ middle)) =
      some middle := by
  rw [slice?, cutAt?_append]
  exact congrArg (Option.map Prod.snd) (cutAt?_append before middle)

def offsetOf? (piece cs : List Char) : Option Nat :=
  (splitAtFirst piece cs).map fun (before, _) => byteCount before

def offsetOutside? (kind : Char → Bool) (cs : List Char) : Option Nat :=
  if cs.all kind then none else some (byteCount (cs.takeWhile kind))

end TaintScan.Text
