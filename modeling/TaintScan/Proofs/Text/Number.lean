import TaintScan.Text.Blank
import TaintScan.Text.Number

namespace TaintScan.Text

theorem trim_of_no_blank {cs : List Char} (h : ∀ c ∈ cs, isBlank c = false) : trim cs = cs := by
  have kept : ∀ text : List Char, (∀ c ∈ text, isBlank c = false) → text.dropWhile isBlank = text := by
    intro text h
    cases text with
    | nil => rfl
    | cons c rest => rw [List.dropWhile_cons_of_neg (by simp [h c])]
  have reversed : ∀ c ∈ cs.reverse, isBlank c = false := by simpa using h
  rw [trim, kept cs h, kept cs.reverse reversed, List.reverse_reverse]

theorem isDigit_of_mem_natural {n : Nat} : ∀ c ∈ natural n, c.isDigit = true := fun _ member =>
  Nat.isDigit_of_mem_toDigits (by omega) (by omega) member

theorem ne_of_isDigit {c d : Char} (digit : c.isDigit = true) (other : d.isDigit = false) : c ≠ d := by
  rintro rfl
  rw [digit] at other
  cases other

theorem isBlank_of_isDigit {c : Char} (digit : c.isDigit = true) : isBlank c = false := by
  simp only [Char.isDigit, Bool.and_eq_true, decide_eq_true_eq, UInt32.le_iff_toNat_le] at digit
  have low : 48 ≤ c.toNat := digit.1
  have high : c.toNat ≤ 57 := digit.2
  simp only [isBlank, Bool.or_eq_false_iff, Bool.and_eq_false_iff, decide_eq_false_iff_not,
    beq_eq_false_iff_ne, ne_eq]
  omega

theorem integer_no_blank (n : Int) : ∀ c ∈ integer n, isBlank c = false := by
  have digits : ∀ c ∈ natural n.natAbs, isBlank c = false :=
    fun c member => isBlank_of_isDigit (isDigit_of_mem_natural c member)
  unfold integer
  split
  · exact List.forall_mem_cons.mpr ⟨by decide, digits⟩
  · exact digits

theorem natural?_natural (n : Nat) : natural? (natural n) = some n := by
  have digits : (natural n).all Char.isDigit = true := List.all_eq_true.mpr isDigit_of_mem_natural
  have some : (natural n).isEmpty = false := by simp [natural, Nat.toDigits_ne_nil]
  rw [natural?, digits, some]
  exact congrArg Option.some Nat.ofDigitChars_ten_toDigits

theorem int64?_natural (n : Nat) : int64? (natural n) = int64OfInt? n := by
  have unsigned : int64? (natural n) = (natural? (natural n)).bind fun k => int64OfInt? k := by
    unfold int64?
    split
    · rename_i rest same
      exact absurd (isDigit_of_mem_natural (n := n) '-' (by rw [same]; simp)) (by decide)
    · rename_i rest same
      exact absurd (isDigit_of_mem_natural (n := n) '+' (by rw [same]; simp)) (by decide)
    · rfl
  rw [unsigned, natural?_natural]
  rfl

theorem int64?_integer (n : Int) : int64? (integer n) = int64OfInt? n := by
  by_cases negative : n < 0
  · have value : -(n.natAbs : Int) = n := by omega
    rw [integer, if_pos negative, int64?, natural?_natural, Option.bind_some, value]
  · have value : (n.natAbs : Int) = n := by omega
    rw [integer, if_neg negative, int64?_natural, value]

theorem int64?_trim_integer {n : Int} (low : Int64.minValue.toInt ≤ n)
    (high : n ≤ Int64.maxValue.toInt) : int64? (trim (integer n)) = some (Int64.ofInt n) := by
  rw [trim_of_no_blank (integer_no_blank n), int64?_integer, int64OfInt?, if_pos ⟨low, high⟩]

end TaintScan.Text
