import Mathlib.Data.List.TakeDrop
import TaintScan.Id

namespace TaintScan

namespace Text

theorem hexValue?_hexDigit : ∀ n < 16, hexValue? (hexDigit n) = some n := by decide

theorem mapM_hexValue? {ds : List Nat} (small : ∀ d ∈ ds, d < 16) :
    (ds.map hexDigit).mapM hexValue? = some ds := by
  induction ds with
  | nil => rfl
  | cons d rest ih =>
    have first := hexValue?_hexDigit d (small d List.mem_cons_self)
    have others := ih fun e member => small e (List.mem_cons_of_mem _ member)
    rw [List.map_cons, List.mapM_cons, first, others]
    rfl

end Text

namespace Uuid

def lastDigits (count n : Nat) : List Nat :=
  (List.range count).map fun i => n / Nat.pow 16 (count - 1 - i) % 16

theorem lastDigits_succ (count n : Nat) :
    lastDigits (count + 1) n = lastDigits count (n / 16) ++ [n % 16] := by
  have front : (List.range count).map (fun i => n / Nat.pow 16 (count + 1 - 1 - i) % 16) =
      lastDigits count (n / 16) := by
    refine List.map_congr_left fun i inside => ?_
    have within : i < count := List.mem_range.mp inside
    have shifted : count + 1 - 1 - i = (count - 1 - i) + 1 := by omega
    have power : Nat.pow 16 ((count - 1 - i) + 1) = 16 * Nat.pow 16 (count - 1 - i) :=
      Nat.pow_succ'
    rw [shifted, power, Nat.div_div_eq_div_mul]
  have last : n / Nat.pow 16 (count + 1 - 1 - count) % 16 = n % 16 := by
    have none : count + 1 - 1 - count = 0 := by omega
    rw [none]
    exact congrArg (· % 16) (Nat.div_one n)
  rw [lastDigits, List.range_succ, List.map_append, front, List.map_singleton, last]

theorem foldl_lastDigits (count n : Nat) :
    (lastDigits count n).foldl (fun value d => value * 16 + d) 0 = n % Nat.pow 16 count := by
  induction count generalizing n with
  | zero => simp [lastDigits, Nat.mod_one]
  | succ count ih =>
    have power : Nat.pow 16 (count + 1) = 16 * Nat.pow 16 count := Nat.pow_succ'
    rw [lastDigits_succ, List.foldl_append, ih, List.foldl_cons, List.foldl_nil, power, Nat.mod_mul]
    omega

theorem lastDigits_lt (count n : Nat) : ∀ d ∈ lastDigits count n, d < 16 := by
  intro d member
  obtain ⟨i, -, rfl⟩ := List.mem_map.mp member
  exact Nat.mod_lt _ (by decide)

theorem digits_eq (u : Uuid) : u.digits = (lastDigits 32 u.bits.toNat).map Text.hexDigit := by
  rw [digits, lastDigits, List.map_map]
  rfl

theorem length_digits (u : Uuid) : u.digits.length = 32 := by
  rw [digits, List.length_map, List.length_range]

theorem ne_hyphen_of_mem_digits {u : Uuid} : ∀ c ∈ u.digits, c ≠ '-' := by
  have plain : ∀ d < 16, Text.hexDigit d ≠ '-' := by decide
  intro c member
  rw [digits_eq] at member
  obtain ⟨d, inside, rfl⟩ := List.mem_map.mp member
  exact plain d (lastDigits_lt _ _ d inside)

theorem ofDigits?_digits (u : Uuid) : ofDigits? u.digits = some u := by
  have values : u.digits.mapM Text.hexValue? = some (lastDigits 32 u.bits.toNat) := by
    rw [digits_eq, Text.mapM_hexValue? (lastDigits_lt _ _)]
  have whole : u.bits.toNat % Nat.pow 16 32 = u.bits.toNat :=
    Nat.mod_eq_of_lt (Nat.lt_of_lt_of_le u.bits.isLt (by decide))
  rw [ofDigits?, if_pos u.length_digits, values, Option.map_some, foldl_lastDigits, whole,
    BitVec.ofNat_toNat, BitVec.setWidth_eq]

/-- Characters from an index on have hyphens in their places, and digits in all others. -/
structure Hyphenates (start : Nat) (cs ds : List Char) : Prop where
  places : (cs.zipIdx start).all (fun (c, i) => (c == '-') == hyphenAt i) = true
  digits : cs.filter (· != '-') = ds

namespace Hyphenates

variable {start : Nat} {cs ds : List Char}

theorem append {cs' ds' : List Char} (front : Hyphenates start cs ds)
    (back : Hyphenates (start + cs.length) cs' ds') : Hyphenates start (cs ++ cs') (ds ++ ds') where
  places := by
    rw [List.zipIdx_append, List.all_append, Bool.and_eq_true]
    exact ⟨front.places, back.places⟩
  digits := by rw [List.filter_append, front.digits, back.digits]

theorem run (count : Nat) (length : cs.length = count) (plain : ∀ c ∈ cs, c ≠ '-')
    (none : ∀ i < count, hyphenAt (start + i) = false) : Hyphenates start cs cs where
  places := by
    refine List.all_eq_true.mpr fun entry member => ?_
    obtain ⟨low, high, same⟩ := List.mem_zipIdx member
    have other : entry.1 ≠ '-' := plain _ (same ▸ List.getElem_mem _)
    have within : hyphenAt (start + (entry.2 - start)) = false := none _ (by omega)
    have place : start + (entry.2 - start) = entry.2 := by omega
    rw [place] at within
    simp [other, within]
  digits := List.filter_eq_self.mpr fun c member => by simp [plain c member]

theorem group (count : Nat) (hyphen : hyphenAt start = true) (length : cs.length = count)
    (plain : ∀ c ∈ cs, c ≠ '-') (none : ∀ i < count, hyphenAt (start + 1 + i) = false) :
    Hyphenates start ('-' :: cs) cs := by
  have mark : Hyphenates start ['-'] [] := ⟨by simp [hyphen], rfl⟩
  exact mark.append (run count length plain none)

end Hyphenates

theorem hyphenates_chars (u : Uuid) : Hyphenates 0 u.chars u.digits := by
  have length := u.length_digits
  have plain := ne_hyphen_of_mem_digits (u := u)
  have front : Hyphenates 0 (u.digits.take 8) (u.digits.take 8) :=
    .run 8 (by simp [length]) (fun c member => plain c (List.mem_of_mem_take member))
      (by decide)
  have inner (start m : Nat) (fits : m + 4 ≤ 32) (hyphen : hyphenAt start = true)
      (none : ∀ i < 4, hyphenAt (start + 1 + i) = false) :
      Hyphenates start ('-' :: (u.digits.drop m).take 4) ((u.digits.drop m).take 4) :=
    .group 4 hyphen (by simp [length]; omega)
      (fun c member => plain c (List.mem_of_mem_drop (List.mem_of_mem_take member))) none
  have back : Hyphenates 23 ('-' :: u.digits.drop 20) (u.digits.drop 20) :=
    .group 12 rfl (by simp [length])
      (fun c member => plain c (List.mem_of_mem_drop member)) (by decide)
  have second := inner 8 8 (by decide) rfl (by decide)
  have third := inner 13 12 (by decide) rfl (by decide)
  have fourth := inner 18 16 (by decide) rfl (by decide)
  have joined : u.digits.take 8 ++ (u.digits.drop 8).take 4 ++ (u.digits.drop 12).take 4 ++
      (u.digits.drop 16).take 4 ++ u.digits.drop 20 = u.digits := by
    rw [← List.take_add, ← List.take_add, ← List.take_add, List.take_append_drop]
  rw [← joined]
  exact (((front.append (by simpa [length] using second)).append (by simpa [length] using third)).append
    (by simpa [length] using fourth)).append (by simpa [length] using back)

theorem ofHyphenated?_chars (u : Uuid) : ofHyphenated? u.chars = some u := by
  obtain ⟨places, digits⟩ := u.hyphenates_chars
  rw [ofHyphenated?, digits, ofDigits?_digits]
  exact if_pos places

theorem ofText?_text (u : Uuid) : ofText? u.text = some u := by
  rw [ofText?, text, String.toList_ofList, ofChars?, ofHyphenated?_chars]
  rfl

end Uuid

theorem ObjectId.ofText?_text (id : ObjectId) : ObjectId.ofText? id.text = some id := by
  rw [ObjectId.ofText?, ObjectId.text, Uuid.ofText?_text]
  rfl

theorem RuleId.ofText?_text (id : RuleId) : RuleId.ofText? id.text = some id := by
  rw [RuleId.ofText?, RuleId.text, Uuid.ofText?_text]
  rfl

end TaintScan
