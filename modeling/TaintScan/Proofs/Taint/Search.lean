import Mathlib.Data.List.TakeWhile
import Mathlib.Data.Nat.Find
import TaintScan.Proofs.Name
import TaintScan.Proofs.Text.Offset
import TaintScan.Taint.Marker

namespace TaintScan

namespace Marker

open Text

variable {m : Marker} {c : Char} {cs rest front back : List Char}

theorem stem_chars (m : Marker) : ∀ c ∈ m.stem.toList, Name.isMarkerChar c = true :=
  Name.isMarkerChar_of_isMarkerSafe m.safe

theorem stem_ne_nil (m : Marker) : m.stem.toList ≠ [] := by
  intro empty
  have safe := m.safe
  rw [empty] at safe
  cases safe

/-- The run of marker characters at the front of a text. -/
def run (cs : List Char) : List Char := cs.takeWhile Name.isMarkerChar

/-- The stem stands at the front of a text, and the run there is long enough. -/
def BeginsToken (m : Marker) (cs : List Char) : Prop :=
  m.stem.toList <+: cs ∧ m.minLength ≤ (run cs).length

instance (m : Marker) (cs : List Char) : Decidable (m.BeginsToken cs) :=
  inferInstanceAs (Decidable (_ ∧ _))

def runIn (m : Marker) (cs : List Char) : Option (List Char) := findRun m.stem.toList m.minLength cs

theorem tokenIn_eq (m : Marker) (value : String) :
    m.tokenIn value = (m.runIn value.toList).map String.ofList := rfl

theorem run_cons (h : Name.isMarkerChar c = true) (rest : List Char) : run (c :: rest) = c :: run rest :=
  List.takeWhile_cons_of_pos h

theorem isMarkerChar_of_stem (h : m.stem.toList <+: c :: rest) : Name.isMarkerChar c = true := by
  obtain ⟨d, more, shape⟩ := List.exists_cons_of_ne_nil m.stem_ne_nil
  have first := m.stem_chars d (by simp [shape])
  rw [shape, List.cons_prefix_cons] at h
  exact h.1 ▸ first

theorem findRun_of_short {stem : List Char} {least : Nat} (short : (run cs).length < least) :
    findRun stem least cs = findRun stem least (cs.dropWhile Name.isMarkerChar) := by
  induction cs with
  | nil => rfl
  | cons c rest ih =>
    by_cases marks : Name.isMarkerChar c = true
    · rw [run_cons marks, List.length_cons] at short
      have skipped : findRun stem least rest = findRun stem least (rest.dropWhile Name.isMarkerChar) :=
        ih (by omega)
      have few : ¬ least ≤ ((c :: rest).takeWhile Name.isMarkerChar).length := by
        have whole : ((c :: rest).takeWhile Name.isMarkerChar).length = (run rest).length + 1 :=
          congrArg List.length (run_cons marks rest)
        omega
      rw [findRun, List.dropWhile_cons_of_pos marks, if_neg few, skipped, ite_self]
    · rw [List.dropWhile_cons_of_neg marks]

theorem runIn_cons (m : Marker) (c : Char) (rest : List Char) :
    m.runIn (c :: rest) = if m.BeginsToken (c :: rest) then some (run (c :: rest)) else m.runIn rest := by
  rw [runIn, findRun]
  by_cases stands : m.stem.toList <+: c :: rest
  · rw [if_pos (List.isPrefixOf_iff_prefix.mpr stands)]
    by_cases long : m.minLength ≤ (run (c :: rest)).length
    · have token : m.BeginsToken (c :: rest) := ⟨stands, long⟩
      rw [if_pos token]
      exact if_pos long
    · have other : ¬ m.BeginsToken (c :: rest) := fun token => long token.2
      rw [if_neg other]
      refine (if_neg long).trans (findRun_of_short ?_).symm
      rw [run_cons (isMarkerChar_of_stem stands), List.length_cons] at long
      omega
  · have other : ¬ m.BeginsToken (c :: rest) := fun token => stands token.1
    rw [if_neg other]
    exact if_neg fun found => stands (List.isPrefixOf_iff_prefix.mp found)

theorem runIn_nil (m : Marker) : m.runIn [] = none := by rw [runIn, findRun]

theorem runIn_of_begins (h : m.BeginsToken cs) : m.runIn cs = some (run cs) := by
  cases cs with
  | nil => exact absurd (List.prefix_nil.mp h.1) m.stem_ne_nil
  | cons c rest => rw [runIn_cons, if_pos h]

theorem runIn_of_not_begins (h : ¬ m.BeginsToken (c :: rest)) : m.runIn (c :: rest) = m.runIn rest := by
  rw [runIn_cons, if_neg h]

theorem not_beginsToken_nil (m : Marker) : ¬ m.BeginsToken [] :=
  fun token => m.stem_ne_nil (List.prefix_nil.mp token.1)

theorem runIn_eq_some_iff {t : List Char} : m.runIn cs = some t ↔
    ∃ p, m.BeginsToken (cs.drop p) ∧ (∀ q < p, ¬ m.BeginsToken (cs.drop q)) ∧ t = run (cs.drop p) := by
  induction cs with
  | nil => simp [runIn_nil, not_beginsToken_nil]
  | cons c rest ih =>
    by_cases here : m.BeginsToken (c :: rest)
    · rw [runIn_of_begins here]
      constructor
      · rintro ⟨⟩
        exact ⟨0, here, nofun, rfl⟩
      · rintro ⟨p, -, leftmost, rfl⟩
        have front : p = 0 := Nat.eq_zero_of_not_pos fun behind => leftmost 0 behind here
        rw [front, List.drop_zero]
    · rw [runIn_of_not_begins here, ih]
      constructor
      · rintro ⟨p, token, leftmost, rfl⟩
        refine ⟨p + 1, token, fun q before => ?_, rfl⟩
        cases q with
        | zero => exact here
        | succ q => exact leftmost q (Nat.lt_of_succ_lt_succ before)
      · rintro ⟨p, token, leftmost, rfl⟩
        cases p with
        | zero => exact absurd token here
        | succ p => exact ⟨p, token, fun q before => leftmost (q + 1) (Nat.succ_lt_succ before), rfl⟩

theorem exists_of_runIn {t : List Char} (h : m.runIn cs = some t) :
    ∃ p, m.BeginsToken (cs.drop p) ∧ t = run (cs.drop p) := by
  obtain ⟨p, token, -, same⟩ := runIn_eq_some_iff.mp h
  exact ⟨p, token, same⟩

theorem runIn_eq_none_iff : m.runIn cs = none ↔ ∀ p, ¬ m.BeginsToken (cs.drop p) := by
  constructor
  · intro missed p token
    have some : ∃ p, m.BeginsToken (cs.drop p) := ⟨p, token⟩
    have found := runIn_eq_some_iff.mpr
      ⟨Nat.find some, Nat.find_spec some, fun q before => Nat.find_min some before, rfl⟩
    rw [missed] at found
    cases found
  · intro none
    cases found : m.runIn cs with
    | none => rfl
    | some t =>
      obtain ⟨p, token, -⟩ := exists_of_runIn found
      exact absurd token (none p)

/-- The search for a token from a byte offset on. The outer option is empty if a cut goes through a
character. -/
def searchFrom (m : Marker) (value : List Char) (search : Nat) : Option (Option (List Char)) :=
  match h : cutAt? value search with
  | none => none
  | some (_, ahead) =>
    match offsetOf? m.stem.toList ahead with
    | none => some none
    | some offset =>
      let start := search + offset
      match cutAt? value start with
      | none => none
      | some (_, tail) =>
        let stop := ((offsetOutside? Name.isMarkerChar tail).map (start + ·)).getD (byteCount value)
        have inside := le_byteCount_of_cutAt? h
        if m.minLength ≤ stop - start then (slice? value start stop).map some
        else searchFrom m value (max stop (start + 1))
termination_by byteCount value + 1 - search

theorem runIn_of_splitAtFirst (h : splitAtFirst m.stem.toList cs = none) : m.runIn cs = none := by
  induction cs with
  | nil => exact runIn_nil m
  | cons c rest ih =>
    rw [splitAtFirst] at h
    split at h
    · cases h
    · rename_i absent
      have other : ¬ m.BeginsToken (c :: rest) := fun token =>
        absent (List.isPrefixOf_iff_prefix.mpr token.1)
      rw [runIn_of_not_begins other]
      exact ih (Option.map_eq_none_iff.mp h)

theorem runIn_at_splitAtFirst {before behind : List Char}
    (h : splitAtFirst m.stem.toList cs = some (before, behind)) :
    ∃ tail, cs = before ++ tail ∧ m.stem.toList <+: tail ∧ m.runIn cs = m.runIn tail := by
  induction cs generalizing before with
  | nil =>
    have nonempty : m.stem.toList.isEmpty = false := by simpa using m.stem_ne_nil
    rw [splitAtFirst, nonempty] at h
    cases h
  | cons c rest ih =>
    rw [splitAtFirst] at h
    split at h
    · rename_i stands
      cases h
      exact ⟨c :: rest, rfl, List.isPrefixOf_iff_prefix.mp stands, rfl⟩
    · rename_i absent
      obtain ⟨⟨before', behind'⟩, split, same⟩ := Option.map_eq_some_iff.mp h
      cases same
      obtain ⟨tail, rfl, stands, found⟩ := ih split
      have other : ¬ m.BeginsToken (c :: (before' ++ tail)) := fun token =>
        absent (List.isPrefixOf_iff_prefix.mpr token.1)
      exact ⟨tail, rfl, stands, (runIn_of_not_begins other).trans found⟩

theorem byteCount_of_chars (chars : ∀ c ∈ cs, Name.isMarkerChar c = true) : byteCount cs = cs.length := by
  induction cs with
  | nil => rfl
  | cons c rest ih =>
    obtain ⟨first, others⟩ := List.forall_mem_cons.mp chars
    have size : c.utf8Size = 1 :=
      Name.isMarkerChar_induction (P := fun c => c.utf8Size = 1) first (by decide)
    rw [byteCount_cons, size, ih others, List.length_cons, Nat.add_comm]

theorem run_append_dropWhile (cs : List Char) : run cs ++ cs.dropWhile Name.isMarkerChar = cs :=
  List.takeWhile_append_dropWhile

theorem run_chars (cs : List Char) : ∀ c ∈ run cs, Name.isMarkerChar c = true :=
  fun _ member => List.mem_takeWhile_imp member

theorem run_pos (h : m.stem.toList <+: cs) : 0 < (run cs).length := by
  cases cs with
  | nil => exact absurd (List.prefix_nil.mp h) m.stem_ne_nil
  | cons c rest =>
    rw [run_cons (isMarkerChar_of_stem h)]
    exact Nat.succ_pos _

theorem offsetOutside?_run (front tail : List Char) :
    ((offsetOutside? Name.isMarkerChar tail).map (byteCount front + ·)).getD (byteCount (front ++ tail)) =
      byteCount (front ++ run tail) := by
  rw [offsetOutside?]
  split
  · rename_i all
    have whole : run tail = tail := List.takeWhile_eq_self_iff.mpr (List.all_eq_true.mp all)
    rw [whole]
    rfl
  · exact (byteCount_append front (run tail)).symm

theorem runIn_of_stem (h : m.stem.toList <+: cs) : m.runIn cs =
    if m.minLength ≤ (run cs).length then some (run cs) else m.runIn (cs.dropWhile Name.isMarkerChar) := by
  split
  · rename_i long
    exact runIn_of_begins ⟨h, long⟩
  · rename_i short
    exact findRun_of_short (Nat.lt_of_not_le short)

/-- One turn of the search: where the stem stands next, the run is the token, or the search goes on
behind it. -/
theorem searchFrom_turn {passed tail behind : List Char}
    (next : splitAtFirst m.stem.toList (passed ++ tail) = some (passed, behind))
    (stands : m.stem.toList <+: tail) :
    m.searchFrom (front ++ (passed ++ tail)) (byteCount front) =
      if m.minLength ≤ (run tail).length then some (some (run tail))
      else m.searchFrom (front ++ passed ++ run tail ++ tail.dropWhile Name.isMarkerChar)
        (byteCount (front ++ passed ++ run tail)) := by
  have whole : front ++ passed ++ run tail ++ tail.dropWhile Name.isMarkerChar = front ++ passed ++ tail := by
    rw [List.append_assoc, run_append_dropWhile]
  have start : byteCount front + byteCount passed = byteCount (front ++ passed) :=
    (byteCount_append front passed).symm
  have offset : offsetOf? m.stem.toList (passed ++ tail) = some (byteCount passed) := by
    rw [offsetOf?, next]
    rfl
  have stop : byteCount (front ++ passed ++ run tail) = byteCount (front ++ passed) + (run tail).length := by
    rw [byteCount_append, byteCount_of_chars (run_chars tail)]
  have nonempty := run_pos stands
  have further : max (byteCount (front ++ passed ++ run tail)) (byteCount (front ++ passed) + 1) =
      byteCount (front ++ passed ++ run tail) := by omega
  have piece := slice?_append (front ++ passed) (run tail) (tail.dropWhile Name.isMarkerChar)
  rw [whole] at piece
  rw [searchFrom]
  split
  · rename_i broken
    rw [cutAt?_append] at broken
    cases broken
  · rename_i before ahead cut
    rw [cutAt?_append] at cut
    cases cut
    simp only [offset, start, ← List.append_assoc, cutAt?_append, offsetOutside?_run, further, piece, whole]
    rw [stop, Nat.add_sub_cancel_left]
    rfl

theorem searchFrom_absent (h : splitAtFirst m.stem.toList back = none) :
    m.searchFrom (front ++ back) (byteCount front) = some none := by
  rw [searchFrom]
  split
  · rename_i broken
    rw [cutAt?_append] at broken
    cases broken
  · rename_i before ahead cut
    rw [cutAt?_append] at cut
    cases cut
    rw [offsetOf?, h]
    rfl

/-- From an offset between two characters on, the search cuts no character, and it finds what the
search over characters finds. -/
theorem searchFrom_append (m : Marker) (front back : List Char) :
    m.searchFrom (front ++ back) (byteCount front) = some (m.runIn back) := by
  obtain ⟨n, size⟩ : ∃ n, back.length = n := ⟨_, rfl⟩
  induction n using Nat.strongRecOn generalizing front back with
  | ind n ih =>
    cases next : splitAtFirst m.stem.toList back with
    | none => rw [searchFrom_absent next, runIn_of_splitAtFirst next]
    | some parts =>
      obtain ⟨passed, behind⟩ := parts
      obtain ⟨tail, rfl, stands, same⟩ := runIn_at_splitAtFirst next
      have shorter : (tail.dropWhile Name.isMarkerChar).length < n := by
        have parts := congrArg List.length (run_append_dropWhile tail)
        have nonempty := run_pos stands
        simp only [List.length_append] at parts size
        omega
      rw [searchFrom_turn next stands, same, runIn_of_stem stands, ih _ shorter _ _ rfl]
      split
      · rfl
      · rfl

/-- The token is the leftmost run of marker characters that begins with the stem and is long enough; it
is found by offsets that always lie between two characters. -/
theorem tokenIn_leftmost (m : Marker) (value : String) :
    m.searchFrom value.toList 0 = some ((m.tokenIn value).map String.toList) ∧
      (∀ t, m.tokenIn value = some t ↔ ∃ p, m.BeginsToken (value.toList.drop p) ∧
        (∀ q < p, ¬ m.BeginsToken (value.toList.drop q)) ∧
          t = String.ofList (run (value.toList.drop p))) ∧
      (m.tokenIn value = none ↔ ∀ p, ¬ m.BeginsToken (value.toList.drop p)) := by
  refine ⟨?_, fun t => ?_, ?_⟩
  · have found : m.searchFrom value.toList 0 = some (m.runIn value.toList) :=
      searchFrom_append m [] value.toList
    simp [found, tokenIn_eq, Function.comp_def]
  · rw [tokenIn_eq, Option.map_eq_some_iff]
    simp only [runIn_eq_some_iff]
    constructor
    · rintro ⟨_, ⟨p, token, leftmost, rfl⟩, rfl⟩
      exact ⟨p, token, leftmost, rfl⟩
    · rintro ⟨p, token, leftmost, rfl⟩
      exact ⟨_, ⟨p, token, leftmost, rfl⟩, rfl⟩
  · rw [tokenIn_eq, Option.map_eq_none_iff]
    exact runIn_eq_none_iff

end Marker

end TaintScan
