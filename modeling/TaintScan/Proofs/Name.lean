import Mathlib.Data.List.TakeDrop
import TaintScan.Name.Basic
import TaintScan.Proofs.Text.Pieces
import TaintScan.Text.Ascii

namespace TaintScan

theorem Text.ascii_induction {P : Char → Prop} (all : ∀ n < 128, P (Char.ofNat n)) {c : Char}
    (ascii : c.toNat < 128) : P c := by
  have this := all c.toNat ascii
  rwa [Char.ofNat_toNat] at this

theorem Text.toNat_of_isAlpha {c : Char} (h : c.isAlpha = true) : c.toNat < 128 := by
  have letter : c.isUpper = true ∨ c.isLower = true := Bool.or_eq_true_iff.mp h
  have last : c.val ≤ 'Z'.val ∨ c.val ≤ 'z'.val := by
    rcases letter with upper | lower
    · exact .inl (of_decide_eq_true upper).2
    · exact .inr (of_decide_eq_true (Bool.and_eq_true_iff.mp lower).2)
  have value : c.toNat ≤ 90 ∨ c.toNat ≤ 122 := last
  omega

theorem Text.toLower_of_not_ascii {c : Char} (h : ¬ c.toNat < 128) : c.toLower = c := by
  have high : ¬ c.val ≤ 90 := fun le => h (Nat.lt_of_le_of_lt le (by decide))
  exact dif_neg fun upper => high upper.2

theorem Text.lowerCase_lowerCase (cs : List Char) : lowerCase (lowerCase cs) = lowerCase cs := by
  have twice (c : Char) : c.toLower.toLower = c.toLower := by
    by_cases ascii : c.toNat < 128
    · exact ascii_induction (P := fun c => c.toLower.toLower = c.toLower) (by decide) ascii
    · rw [toLower_of_not_ascii ascii, toLower_of_not_ascii ascii]
  rw [lowerCase, lowerCase, List.map_map]
  exact List.map_congr_left fun c _ => twice c

namespace Name

variable {c d : Char} {name : List Char}

theorem isMarkerChar_of_isMarkerSafe (h : isMarkerSafe name = true) :
    ∀ c ∈ name, isMarkerChar c = true := by
  cases name with
  | nil => exact nofun
  | cons c more =>
    simp only [isMarkerSafe, Bool.and_eq_true, List.all_eq_true] at h
    exact List.forall_mem_cons.mpr ⟨by simp [isMarkerChar, h.1], h.2⟩

theorem isMarkerSafe_of_prefix {stem : List Char} (safe : isMarkerSafe stem = true)
    (stands : stem <+: name) (chars : ∀ c ∈ name, isMarkerChar c = true) : isMarkerSafe name = true := by
  rcases stands with ⟨rest, rfl⟩
  cases stem with
  | nil => cases safe
  | cons c more =>
    have letter : c.isLower = true := (Bool.and_eq_true _ _ |>.mp safe).1
    rw [List.cons_append, isMarkerSafe, letter, Bool.true_and, List.all_eq_true]
    intro d member
    exact chars d (List.mem_cons_of_mem c member)

theorem toNat_of_isMarkerChar (h : isMarkerChar c = true) : c.toNat < 128 := by
  have lowers : c.isLower = (decide (c.val ≥ 'a'.val) && decide (c.val ≤ 'z'.val)) := rfl
  simp only [isMarkerChar, Bool.or_eq_true, lowers, Char.isDigit, Bool.and_eq_true,
    decide_eq_true_eq, UInt32.le_iff_toNat_le, ge_iff_le] at h
  have upper : c.toNat ≤ 122 := by
    rcases h with ⟨-, lower⟩ | ⟨-, digit⟩
    · exact lower
    · exact Nat.le_trans digit (by decide)
  omega

theorem isMarkerChar_induction {P : Char → Prop} (h : isMarkerChar c = true)
    (all : ∀ n < 128, isMarkerChar (Char.ofNat n) = true → P (Char.ofNat n)) : P c :=
  Text.ascii_induction (P := fun c => isMarkerChar c = true → P c) all (toNat_of_isMarkerChar h) h

def isNameChar (c : Char) : Bool := isPart c || c == ':'

theorem isNameChar_of_isMarkerChar (h : isMarkerChar c = true) : isNameChar c = true :=
  isMarkerChar_induction (P := fun c => isNameChar c = true) h (by decide)

theorem ne_of_isNameChar (h : isNameChar c = true) (other : isNameChar d = false) : c ≠ d := by
  rintro rfl
  rw [h] at other
  cases other

structure Solid (name : List Char) : Prop where
  nonempty : name ≠ []
  chars : ∀ c ∈ name, isNameChar c = true

theorem solid_of_isMarkerSafe (h : isMarkerSafe name = true) : Solid name where
  nonempty := by
    rintro rfl
    cases h
  chars c member := isNameChar_of_isMarkerChar (isMarkerChar_of_isMarkerSafe h c member)

theorem isPart_of_isUncoloned (h : isUncoloned name = true) : ∀ c ∈ name, isPart c = true := by
  cases name with
  | nil => exact nofun
  | cons c rest =>
    simp only [isUncoloned, Bool.and_eq_true, List.all_eq_true] at h
    exact List.forall_mem_cons.mpr ⟨by simp [isPart, h.1], h.2⟩

theorem solid_of_isUncoloned (h : isUncoloned name = true) : Solid name where
  nonempty := by
    rintro rfl
    cases h
  chars c member := by simp [isNameChar, isPart_of_isUncoloned h c member]

theorem not_mem_of_isUncoloned (h : isUncoloned name = true) (other : isPart d = false) : d ∉ name := by
  intro member
  rw [isPart_of_isUncoloned h d member] at other
  cases other

theorem isQualified_of_isUncoloned (h : isUncoloned name = true) : isQualified name = true := by
  have whole : name.span (· != ':') = (name, []) := by
    have goes : ∀ c ∈ name, (c != ':') = true := by
      intro c member
      rw [bne_iff_ne]
      rintro rfl
      exact not_mem_of_isUncoloned h (by decide) member
    have through := Text.span_append (· != ':') name [] goes nofun
    rwa [List.append_nil] at through
  rw [isQualified, whole]
  exact h

theorem solid_of_isQualified (h : isQualified name = true) : Solid name := by
  have whole : name.takeWhile (· != ':') ++ name.dropWhile (· != ':') = name :=
    List.takeWhile_append_dropWhile
  have colon := List.head?_dropWhile_not (· != ':') name
  rw [isQualified, List.span_eq_takeWhile_dropWhile] at h
  cases behind : name.dropWhile (· != ':') with
  | nil =>
    rw [behind, List.append_nil] at whole
    rw [behind, whole] at h
    exact solid_of_isUncoloned h
  | cons mark second =>
    rw [behind] at h whole colon
    obtain ⟨one, two⟩ := (Bool.and_eq_true _ _).mp h
    have marks : isNameChar mark = true := by simpa [isNameChar] using .inr (by simpa using colon)
    rw [← whole]
    exact ⟨by simp, List.forall_mem_append.mpr ⟨(solid_of_isUncoloned one).chars,
      List.forall_mem_cons.mpr ⟨marks, (solid_of_isUncoloned two).chars⟩⟩⟩

end Name

end TaintScan
