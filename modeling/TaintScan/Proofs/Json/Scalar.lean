import Mathlib.Data.List.TakeWhile
import TaintScan.Json.Reader
import TaintScan.Json.Value
import TaintScan.Proofs.Text.Number
import TaintScan.Proofs.Uuid

namespace TaintScan.Json

/-- A piece stands for one character: as it is, or as an escaped code unit that is no surrogate. -/
def Piece.Spells (p : Piece) (c : Char) : Prop :=
  p = .char c ∨ p = .unit c.toNat ∧ c.toNat < 0x20

theorem joinPieces_spelled {p : Piece} {c : Char} (spelled : p.Spells c) (cut : Bool)
    (ps : List Piece) : joinPieces cut (p :: ps) = (joinPieces cut ps).map (c :: ·) := by
  rcases spelled with rfl | ⟨rfl, control⟩
  · rw [joinPieces]
  · have trailing : isTrailing c.toNat = false := by
      simp only [isTrailing, Bool.and_eq_false_iff, decide_eq_false_iff_not]
      omega
    have leading : isLeading c.toNat = false := by
      simp only [isLeading, Bool.and_eq_false_iff, decide_eq_false_iff_not]
      omega
    rcases ps with _ | ⟨_ | _, ps⟩
    all_goals simp [joinPieces, trailing, leading]

theorem codeUnit?_control : ∀ n < 0x20,
    codeUnit? ['0', '0', Text.hexDigit (n / 16), Text.hexDigit (n % 16)] = some n := by decide

theorem escapeChar_cases (c : Char) :
    (∃ e, escapeChar c = ['\\', e] ∧ shortEscape? e = some c) ∨
    (escapeChar c = ['\\', 'u', '0', '0', Text.hexDigit (c.toNat / 16), Text.hexDigit (c.toNat % 16)] ∧
      c.toNat < 0x20) ∨
    (escapeChar c = [c] ∧ c ≠ '"' ∧ c ≠ '\\' ∧ ¬c.toNat < 0x20) := by
  unfold escapeChar
  by_cases quote : c = '"'
  · subst quote
    exact .inl ⟨'"', rfl, rfl⟩
  by_cases backslash : c = '\\'
  · subst backslash
    exact .inl ⟨'\\', rfl, rfl⟩
  by_cases backspace : c = '\x08'
  · subst backspace
    exact .inl ⟨'b', rfl, rfl⟩
  by_cases feed : c = '\x0c'
  · subst feed
    exact .inl ⟨'f', rfl, rfl⟩
  by_cases newline : c = '\n'
  · subst newline
    exact .inl ⟨'n', rfl, rfl⟩
  by_cases ret : c = '\r'
  · subst ret
    exact .inl ⟨'r', rfl, rfl⟩
  by_cases tab : c = '\t'
  · subst tab
    exact .inl ⟨'t', rfl, rfl⟩
  by_cases control : c.toNat < 0x20
  · exact .inr (.inl (by simp [quote, backslash, backspace, feed, newline, ret, tab, control]))
  · exact .inr (.inr (by simp [quote, backslash, backspace, feed, newline, ret, tab, control]))

theorem scanString_escapeChar (c : Char) (rest : List Char) :
    ∃ p : Piece, p.Spells c ∧ scanString (escapeChar c ++ rest) = (scanString rest).push p := by
  rcases escapeChar_cases c with ⟨e, shape, known⟩ | ⟨shape, control⟩ | ⟨shape, quote, backslash, printable⟩
  · have short : e ≠ 'u' := by
      rintro rfl
      simp [shortEscape?] at known
    refine ⟨.char c, .inl rfl, ?_⟩
    simp [shape, scanString, short, known]
  · refine ⟨.unit c.toNat, .inr ⟨rfl, control⟩, ?_⟩
    simp [shape, scanString, codeUnit?_control c.toNat control]
  · refine ⟨.char c, .inl rfl, ?_⟩
    simp [shape, scanString, backslash, printable]

theorem scanString_escaped (cs rest : List Char) : ∃ ps : List Piece,
    scanString (cs.flatMap escapeChar ++ '"' :: rest) = ⟨ps, .ok rest⟩ ∧
      joinPieces false ps = some cs := by
  induction cs with
  | nil => exact ⟨[], rfl, rfl⟩
  | cons c cs ih =>
    obtain ⟨ps, scanned, joined⟩ := ih
    obtain ⟨p, spelled, first⟩ := scanString_escapeChar c (cs.flatMap escapeChar ++ '"' :: rest)
    refine ⟨p :: ps, ?_, ?_⟩
    · rw [List.flatMap_cons, List.append_assoc, first, scanned]
      rfl
    · rw [joinPieces_spelled spelled, joined]
      rfl

theorem quoted_append (s : String) (rest : List Char) :
    quoted s ++ rest = '"' :: (s.toList.flatMap escapeChar ++ '"' :: rest) := by
  simp [quoted]

theorem readString_escaped (s : String) (rest : List Char) :
    readString (s.toList.flatMap escapeChar ++ '"' :: rest) = (.string (some s), some rest) := by
  obtain ⟨ps, scanned, joined⟩ := scanString_escaped s.toList rest
  simp [readString, scanned, joined]

def EndsNumber (rest : List Char) : Prop :=
  ∀ c ∈ rest.head?, c.isDigit = false ∧ c ≠ '.' ∧ c ≠ 'e' ∧ c ≠ 'E'

theorem leadingDigits_append {ds rest : List Char} (digits : ∀ c ∈ ds, c.isDigit = true)
    (stop : ∀ c ∈ rest.head?, c.isDigit = false) : leadingDigits (ds ++ rest) = (ds, rest) := by
  have taken : rest.takeWhile Char.isDigit = [] := by
    cases rest with
    | nil => rfl
    | cons c rest => simp [stop c rfl]
  have dropped : rest.dropWhile Char.isDigit = rest := by
    cases rest with
    | nil => rfl
    | cons c rest => simp [stop c rfl]
  rw [leadingDigits, List.span_eq_takeWhile_dropWhile, List.takeWhile_append_of_pos digits,
    List.dropWhile_append_of_pos digits, taken, dropped, List.append_nil]

theorem exists_natural (n : Nat) : ∃ d ds, Text.natural n = d :: ds ∧ d.isDigit = true := by
  obtain ⟨d, ds, shape⟩ := List.exists_cons_of_ne_nil (Nat.toDigits_ne_nil (n := n) (b := 10))
  exact ⟨d, ds, shape, Text.isDigit_of_mem_natural (n := n) d (by rw [Text.natural, shape]; simp)⟩

theorem head?_natural {n : Nat} (positive : 0 < n) : (Text.natural n).head? ≠ some '0' := by
  induction n using Nat.strongRecOn with
  | _ n ih =>
    by_cases small : n < 10
    · have shown : ∀ d < 10, 0 < d → ([d.digitChar] : List Char).head? ≠ some '0' := by decide
      rw [Text.natural, Nat.toDigits_of_lt_base small]
      exact shown n small positive
    · have split : Text.natural n = Text.natural (n / 10) ++ [(n % 10).digitChar] :=
        Nat.toDigits_of_base_le (by omega) (by omega)
      obtain ⟨d, ds, shape, -⟩ := exists_natural (n / 10)
      have front := ih (n / 10) (by omega) (by omega)
      rw [shape] at front
      rw [split, shape]
      exact front

theorem digit?_digitChar : ∀ d : Fin 10, Numeral.digit? (Numeral.digitChar d) = some d := by decide

theorem isDigit_digitChar : ∀ d : Fin 10, (Numeral.digitChar d).isDigit = true := by decide

namespace Numeral

def fractionChars (n : Numeral) : List Char :=
  if n.fraction.isEmpty then [] else '.' :: n.fraction.map digitChar

def exponentChars (n : Numeral) : List Char :=
  match n.exponent with
  | none => []
  | some e => 'e' :: Text.integer e

theorem chars_eq (n : Numeral) : n.chars = (if n.negative then ['-'] else []) ++
    Text.natural n.whole ++ n.fractionChars ++ n.exponentChars := rfl

end Numeral

theorem leadingDigits_natural (n : Nat) {rest : List Char}
    (stop : ∀ c ∈ rest.head?, c.isDigit = false) :
    leadingDigits (Text.natural n ++ rest) = (Text.natural n, rest) :=
  leadingDigits_append Text.isDigit_of_mem_natural stop

theorem readExponent_integer (n : Numeral) (e : Int) {rest : List Char}
    (stop : ∀ c ∈ rest.head?, c.isDigit = false) :
    readExponent n (Text.integer e ++ rest) = (.number { n with exponent := some e }, some rest) := by
  have digits := leadingDigits_natural e.natAbs stop
  have value : Nat.ofDigitChars 10 (Text.natural e.natAbs) 0 = e.natAbs :=
    Nat.ofDigitChars_ten_toDigits
  obtain ⟨d, ds, shape, digit⟩ := exists_natural e.natAbs
  rw [shape] at digits value
  by_cases negative : e < 0
  · have sign : -1 * (e.natAbs : Int) = e := by omega
    rw [Text.integer, if_pos negative, shape, List.cons_append]
    simp only [readExponent, digits, value, sign]
  · have plus : d ≠ '+' := Text.ne_of_isDigit digit rfl
    have minus : d ≠ '-' := Text.ne_of_isDigit digit rfl
    rw [Text.integer, if_neg negative, shape, List.cons_append]
    rw [List.cons_append] at digits
    simp [readExponent, digits, value, plus, minus]
    omega

theorem readAfterDigits_chars (n : Numeral) {rest : List Char} (ends : EndsNumber rest) :
    readAfterDigits { n with exponent := none } (n.exponentChars ++ rest) =
      (.number n, some rest) := by
  obtain ⟨negative, whole, fraction, exponent⟩ := n
  cases exponent with
  | some e =>
    have stop : ∀ c ∈ rest.head?, c.isDigit = false := fun c first => (ends c first).1
    exact readExponent_integer ⟨negative, whole, fraction, none⟩ e stop
  | none =>
    cases rest with
    | nil => rfl
    | cons c rest =>
      obtain ⟨-, -, lower, upper⟩ := ends c rfl
      simp [Numeral.exponentChars, readAfterDigits, lower, upper]

theorem head?_exponentChars (n : Numeral) {rest : List Char} (ends : EndsNumber rest) :
    ∀ c ∈ (n.exponentChars ++ rest).head?, c.isDigit = false ∧ c ≠ '.' := by
  intro c first
  cases exponent : n.exponent with
  | some e =>
    obtain rfl : 'e' = c := by simpa [Numeral.exponentChars, exponent] using first
    exact ⟨by decide, by decide⟩
  | none =>
    obtain ⟨digit, point, -⟩ := ends c (by simpa [Numeral.exponentChars, exponent] using first)
    exact ⟨digit, point⟩

theorem readAfterWhole_chars (n : Numeral) {rest : List Char} (ends : EndsNumber rest) :
    readAfterWhole { n with fraction := [], exponent := none }
      (n.fractionChars ++ (n.exponentChars ++ rest)) = (.number n, some rest) := by
  have behind := readAfterDigits_chars n ends
  have next := head?_exponentChars n ends
  cases fraction : n.fraction with
  | nil =>
    have same : { n with fraction := [], exponent := none } = { n with exponent := none } := by
      rw [← fraction]
    rw [Numeral.fractionChars, fraction, same, ← behind]
    cases tail : n.exponentChars ++ rest with
    | nil => rfl
    | cons c cs =>
      have point : c ≠ '.' := (next c (by rw [tail]; rfl)).2
      simp [readAfterWhole, point]
  | cons d ds =>
    have digits : ∀ c ∈ n.fraction.map Numeral.digitChar, c.isDigit = true := by
      intro c member
      obtain ⟨d, -, rfl⟩ := List.mem_map.mp member
      exact isDigit_digitChar d
    have scanned := leadingDigits_append digits fun c first => (next c first).1
    have values : (n.fraction.map Numeral.digitChar).filterMap Numeral.digit? = n.fraction := by
      have inverse : Numeral.digit? ∘ Numeral.digitChar = some := funext digit?_digitChar
      rw [List.filterMap_map, inverse, List.filterMap_some]
    rw [fraction, List.map_cons] at scanned values
    rw [Numeral.fractionChars, fraction]
    simp only [List.isEmpty_cons, List.map_cons, List.cons_append, Bool.false_eq_true, if_false,
      readAfterWhole]
    rw [List.cons_append] at scanned
    simp only [scanned, values]
    rw [← fraction]
    exact behind

theorem head?_fractionChars (n : Numeral) {rest : List Char} (ends : EndsNumber rest) :
    ∀ c ∈ (n.fractionChars ++ (n.exponentChars ++ rest)).head?, c.isDigit = false := by
  intro c first
  cases fraction : n.fraction with
  | nil =>
    rw [Numeral.fractionChars, fraction] at first
    exact (head?_exponentChars n ends c first).1
  | cons d ds =>
    obtain rfl : '.' = c := by simpa [Numeral.fractionChars, fraction] using first
    decide

theorem readNumber_chars (n : Numeral) {rest : List Char} (ends : EndsNumber rest) :
    readNumber n.negative (Text.natural n.whole ++ (n.fractionChars ++ (n.exponentChars ++ rest))) =
      (.number n, some rest) := by
  have scanned := leadingDigits_natural n.whole (head?_fractionChars n ends)
  have value : Nat.ofDigitChars 10 (Text.natural n.whole) 0 = n.whole := Nat.ofDigitChars_ten_toDigits
  have behind := readAfterWhole_chars n ends
  obtain ⟨d, ds, shape, digit⟩ := exists_natural n.whole
  rw [shape] at scanned value ⊢
  simp only [readNumber, scanned]
  split
  · rename_i none
    simp at none
  · -- a leading zero in front of other digits: zero itself is written alone
    rename_i e es _ zero
    obtain ⟨⟨rfl, rfl⟩, -⟩ := by simpa using zero
    have positive : 0 < n.whole := by
      rcases Nat.eq_zero_or_pos n.whole with none | positive
      · rw [none] at shape
        simp [Text.natural] at shape
      · exact positive
    exact absurd (by rw [shape]; rfl) (head?_natural positive)
  · rename_i digits _ _ _ same
    obtain ⟨rfl, rfl⟩ := by simpa using same
    rw [value]
    exact behind

def isNumeric (c : Char) : Bool := c == '-' || c.isDigit

theorem ne_of_isNumeric {c d : Char} (numeric : isNumeric c = true) (other : isNumeric d = false) :
    c ≠ d := by
  rintro rfl
  rw [numeric] at other
  cases other

theorem Numeral.exists_chars (n : Numeral) : ∃ c cs, n.chars = c :: cs ∧ isNumeric c = true := by
  obtain ⟨d, ds, digits, digit⟩ := exists_natural n.whole
  have shape := n.chars_eq
  cases negative : n.negative with
  | true =>
    rw [negative] at shape
    exact ⟨'-', _, shape, rfl⟩
  | false =>
    rw [negative, digits] at shape
    exact ⟨d, _, shape, by simp [isNumeric, digit]⟩

theorem readScalar_chars (n : Numeral) {rest : List Char} (ends : EndsNumber rest) :
    readScalar (n.chars ++ rest) = (.number n, some rest) := by
  have number := readNumber_chars n ends
  have shape := Numeral.chars_eq n
  cases negative : n.negative with
  | true =>
    rw [negative] at number
    rw [shape, negative]
    simpa [readScalar] using number
  | false =>
    obtain ⟨d, ds, digits, digit⟩ := exists_natural n.whole
    rw [negative, digits] at number
    rw [shape, negative, digits]
    have quote : d ≠ '"' := Text.ne_of_isDigit digit rfl
    have null : d ≠ 'n' := Text.ne_of_isDigit digit rfl
    have yes : d ≠ 't' := Text.ne_of_isDigit digit rfl
    have no : d ≠ 'f' := Text.ne_of_isDigit digit rfl
    have minus : d ≠ '-' := Text.ne_of_isDigit digit rfl
    simpa [readScalar, quote, null, yes, no, minus, digit] using number

end TaintScan.Json
