import Mathlib.Data.List.TakeWhile
import TaintScan.Markup.Entity

namespace TaintScan.Markup

theorem escape_cons (c : Char) (cs : List Char) : escape (c :: cs) = escapeChar c ++ escape cs :=
  List.flatMap_cons

theorem escape_append (cs ds : List Char) : escape (cs ++ ds) = escape cs ++ escape ds :=
  List.flatMap_append

theorem escapeChar_cases (c : Char) :
    (∃ name, escapeChar c = '&' :: (name ++ [';']) ∧ namedEntity? name = some c ∧
      ∀ d ∈ name, d.isLower = true) ∨
    (escapeChar c = [c] ∧ c ≠ '<' ∧ c ≠ '>' ∧ c ≠ '&' ∧ c ≠ '\x27' ∧ c ≠ '"') := by
  by_cases less : c = '<'
  · exact .inl ⟨"lt".toList, by rw [less]; decide, by rw [less]; decide, by simp⟩
  by_cases greater : c = '>'
  · exact .inl ⟨"gt".toList, by rw [greater]; decide, by rw [greater]; decide, by simp⟩
  by_cases ampersand : c = '&'
  · exact .inl ⟨"amp".toList, by rw [ampersand]; decide, by rw [ampersand]; decide, by simp⟩
  by_cases single : c = '\x27'
  · exact .inl ⟨"apos".toList, by rw [single]; decide, by rw [single]; decide, by simp⟩
  by_cases double : c = '"'
  · exact .inl ⟨"quot".toList, by rw [double]; decide, by rw [double]; decide, by simp⟩
  · exact .inr ⟨by simp [escapeChar, *], less, greater, ampersand, single, double⟩

theorem ne_of_isLower {c d : Char} (lower : c.isLower = true) (other : d.isLower = false) : c ≠ d := by
  rintro rfl
  rw [lower] at other
  cases other

theorem reference?_of_isLower {name : List Char} (lower : ∀ d ∈ name, d.isLower = true) :
    reference? name = namedEntity? name := by
  unfold reference?
  split
  · exact absurd (lower '#' List.mem_cons_self) (by decide)
  · exact absurd (lower '#' List.mem_cons_self) (by decide)
  · rfl

theorem unescape_reference {name rest : List Char} {c : Char} (known : namedEntity? name = some c)
    (lower : ∀ d ∈ name, d.isLower = true) :
    unescape ('&' :: (name ++ ';' :: rest)) = (unescape rest).map (c :: ·) := by
  have goesOn : ∀ d ∈ name, (!endsReference d) = true := fun d member => by
    simp [endsReference, ne_of_isLower (d := '&') (lower d member) (by decide),
      ne_of_isLower (d := ';') (lower d member) (by decide)]
  have behind : (name ++ ';' :: rest).dropWhile (fun d => !endsReference d) = ';' :: rest := by
    rw [List.dropWhile_append_of_pos goesOn]
    rfl
  have front : (name ++ ';' :: rest).takeWhile (fun d => !endsReference d) = name := by
    rw [List.takeWhile_append_of_pos goesOn, List.takeWhile_cons_of_neg (by decide), List.append_nil]
  rw [unescape, behind, front, reference?_of_isLower lower, known]
  rfl

theorem unescape_escape_append (cs rest : List Char) :
    unescape (escape cs ++ rest) = (unescape rest).map (cs ++ ·) := by
  induction cs with
  | nil => simp [escape]
  | cons c cs ih =>
    rw [escape_cons, List.append_assoc]
    have step (behind : List Char) :
        unescape (escapeChar c ++ behind) = (unescape behind).map (c :: ·) := by
      rcases escapeChar_cases c with ⟨name, written, known, lower⟩ | ⟨written, -, -, other, -⟩
      · rw [written, List.cons_append, List.append_assoc]
        exact unescape_reference known lower
      · rw [written, List.singleton_append, unescape, if_neg (by simpa using other)]
    rw [step, ih, Option.map_map]
    rfl

theorem unescape_escape (cs : List Char) : unescape (escape cs) = some cs := by
  have whole := unescape_escape_append cs []
  rw [List.append_nil] at whole
  simp [whole, unescape]

theorem ne_of_mem_escape {cs : List Char} :
    ∀ c ∈ escape cs, c ≠ '<' ∧ c ≠ '>' ∧ c ≠ '\x27' ∧ c ≠ '"' := by
  intro c member
  obtain ⟨d, -, inside⟩ := List.mem_flatMap.mp member
  rcases escapeChar_cases d with ⟨name, written, -, letters⟩ | ⟨written, less, greater, -, single, double⟩
  · rw [written] at inside
    have lower : ∀ e, e.isLower = false → '&' ≠ e → ';' ≠ e → c ≠ e := by
      intro e other front behind
      rcases List.mem_cons.mp inside with rfl | inside
      · exact front
      · rcases List.mem_append.mp inside with letter | last
        · exact ne_of_isLower (letters c letter) other
        · rw [List.mem_singleton.mp last]
          exact behind
    exact ⟨lower _ (by decide) (by decide) (by decide), lower _ (by decide) (by decide) (by decide),
      lower _ (by decide) (by decide) (by decide), lower _ (by decide) (by decide) (by decide)⟩
  · rw [written, List.mem_singleton] at inside
    subst inside
    exact ⟨less, greater, single, double⟩

theorem escape_eq_nil {cs : List Char} : escape cs = [] ↔ cs = [] := by
  cases cs with
  | nil => simp [escape]
  | cons c cs =>
    rcases escapeChar_cases c with ⟨name, written, -⟩ | ⟨written, -⟩
    · simp [escape_cons, written]
    · simp [escape_cons, written]

end TaintScan.Markup
