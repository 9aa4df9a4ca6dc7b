import TaintScan.Proofs.Text.Number
import TaintScan.Schema.Constraint

namespace TaintScan.DataConstraint

variable {c : DataConstraint} {s : String}

theorem unless_fixed_iff {p : Bool} :
    (!c.hasFixedSet || p) = true ↔ (c.hasFixedSet = true → p = true) := by
  cases c.hasFixedSet with
  | false => simp
  | true => simp

theorem accepts_text_iff (type : c.dataType = .string ∨ c.dataType = .other) :
    c.accepts s = true ↔ (∀ most ∈ c.maxLength, s.length ≤ most.toNat) ∧
      (c.hasFixedSet = true → s ∈ c.discreteValues) := by
  rcases type with type | type <;>
    simp only [accepts, type, Bool.and_eq_true, unless_fixed_iff, Option.all_eq_true,
      decide_eq_true_eq, List.contains_iff_mem, Option.mem_def]

theorem accepts_boolean_iff (type : c.dataType = .boolean) : c.accepts s = true ↔
    ∃ b, boolean? s = some b ∧
      (c.hasFixedSet = true → ∃ v ∈ c.discreteValues, boolean? v = some b) := by
  cases read : boolean? s with
  | none => simp [accepts, type, read]
  | some b => simp [accepts, type, read, -Bool.or_eq_true, unless_fixed_iff]

theorem accepts_integer_iff (type : c.dataType = .integer) : c.accepts s = true ↔
    ∃ n, integer? s = some n ∧ (∀ least ∈ c.minValue, least ≤ n) ∧ (∀ most ∈ c.maxValue, n ≤ most) ∧
      (c.hasFixedSet = true → ∃ v ∈ c.discreteValues, integer? v = some n) := by
  cases read : integer? s with
  | none => simp [accepts, type, read]
  | some n =>
    simp [accepts, type, read, -Bool.or_eq_true, unless_fixed_iff, Option.all_eq_true, and_assoc]

theorem accepts_anyText (s : String) : anyText.accepts s = true := rfl

theorem exists_discrete (fixed : c.hasFixedSet = true) (h : c.accepts s = true) :
    ∃ v ∈ c.discreteValues, c.accepts v = true := by
  cases type : c.dataType with
  | string => exact ⟨s, ((accepts_text_iff (.inl type)).mp h).2 fixed, h⟩
  | other => exact ⟨s, ((accepts_text_iff (.inr type)).mp h).2 fixed, h⟩
  | boolean =>
    obtain ⟨b, -, closed⟩ := (accepts_boolean_iff type).mp h
    obtain ⟨v, member, same⟩ := closed fixed
    exact ⟨v, member, (accepts_boolean_iff type).mpr ⟨b, same, closed⟩⟩
  | integer =>
    obtain ⟨n, -, low, high, closed⟩ := (accepts_integer_iff type).mp h
    obtain ⟨v, member, same⟩ := closed fixed
    exact ⟨v, member, (accepts_integer_iff type).mpr ⟨n, same, low, high, closed⟩⟩

theorem bounds_of_accepts (type : c.dataType = .integer) (h : c.accepts s = true) :
    ∀ least ∈ c.minValue, ∀ most ∈ c.maxValue, least ≤ most := by
  obtain ⟨n, -, low, high, -⟩ := (accepts_integer_iff type).mp h
  intro least lower most upper
  exact Int64.le_trans (low least lower) (high most upper)

theorem integer?_integer (i : Int64) : integer? (String.ofList (Text.integer i.toInt)) = some i := by
  rw [integer?, String.toList_ofList, Text.int64?_trim_integer i.minValue_le_toInt i.toInt_le,
    Int64.ofInt_toInt]

section Open

variable (free : c.hasFixedSet = false)
include free

theorem accepts_integer (type : c.dataType = .integer) {i : Int64}
    (low : ∀ least ∈ c.minValue, least ≤ i) (high : ∀ most ∈ c.maxValue, i ≤ most) :
    c.accepts (String.ofList (Text.integer i.toInt)) = true :=
  (accepts_integer_iff type).mpr ⟨i, integer?_integer i, low, high, by simp [free]⟩

theorem accepts_boolean (type : c.dataType = .boolean) {v : String} (member : v ∈ ["true", "false"]) :
    c.accepts v = true := by
  have both : ∀ v ∈ ["true", "false"], (boolean? v).isSome = true := by decide
  obtain ⟨b, read⟩ := Option.isSome_iff_exists.mp (both v member)
  exact (accepts_boolean_iff type).mpr ⟨b, read, by simp [free]⟩

theorem accepts_text (type : c.dataType = .string ∨ c.dataType = .other)
    (short : ∀ most ∈ c.maxLength, s.length ≤ most.toNat) : c.accepts s = true :=
  (accepts_text_iff type).mpr ⟨short, by simp [free]⟩

end Open

end TaintScan.DataConstraint
