import TaintScan.Markup.Fragment
import TaintScan.Proofs.Markup.Tag

namespace TaintScan

namespace Markup

/-- The text is read to its end, and behind it nothing of what was open is left. -/
def Balances (opened : List (List Char)) (cs : List Char) : Prop :=
  ∀ position, (readFrom position cs).fault = none ∧
    checkEvents opened (readFrom position cs).events = some []

theorem isBalanced_of_balances {c : Char} {cs : List Char} (h : Balances [] (c :: cs))
    (first : c ≠ '\uFEFF') : isBalanced (c :: cs) = true := by
  obtain ⟨sound, closed⟩ := h 0
  have whole : read (c :: cs) = readFrom 0 (c :: cs) := by
    unfold read
    split
    · rename_i same
      exact absurd (List.cons.inj same).1 first
    · rfl
  simp [isBalanced, whole, sound, closed]

namespace Balances

variable {opened between : List (List Char)} {cs rest name : List Char}

theorem nil : Balances [] [] := by
  intro position
  rw [readFrom]
  exact ⟨rfl, rfl⟩

theorem event {e : Event} (read : next cs = .event e rest) (known : checkEvent opened e = some between)
    (h : Balances between rest) : Balances opened cs := by
  intro position
  obtain ⟨sound, closed⟩ := h (position + (Text.byteCount cs - Text.byteCount rest))
  rw [readFrom_of_next read]
  exact ⟨sound, by rw [Reading.push, checkEvents, known]; exact closed⟩

theorem start (h : Balances (name :: opened) rest) (safe : Name.isMarkerSafe name = true) :
    Balances opened ('<' :: (name ++ '>' :: rest)) := by
  have read := @next_start name rest [] (Name.solid_of_isMarkerSafe safe) nofun
  rw [List.flatMap_nil, List.append_nil] at read
  exact h.event read rfl

theorem close (h : Balances opened rest) (safe : Name.isMarkerSafe name = true) :
    Balances (name :: opened) ('<' :: '/' :: (name ++ '>' :: rest)) :=
  h.event (next_close (Name.solid_of_isMarkerSafe safe)) (by simp [checkEvent])

theorem empty (h : Balances opened rest) (safe : Name.isMarkerSafe name = true) :
    Balances opened ('<' :: (name ++ '/' :: '>' :: rest)) := by
  have read := @next_empty name rest [] (Name.solid_of_isMarkerSafe safe) nofun
  rw [List.flatMap_nil, List.append_nil] at read
  refine h.event read ?_
  have none : Tag.attributes false ⟨name, []⟩ = .ok [] := by
    rw [Tag.attributes, readAttributes]
    rfl
  rw [checkEvent, none]

theorem text {raw : List Char} (h : Balances opened rest) (tag : rest.head? = some '<')
    (nonempty : raw ≠ []) (plain : ∀ c ∈ raw, c ≠ '<' ∧ c ≠ '&') : Balances opened (raw ++ rest) := by
  obtain ⟨c, more, rfl⟩ := List.exists_cons_of_ne_nil nonempty
  obtain ⟨behind, rfl⟩ := List.head?_eq_some_iff.mp tag
  obtain ⟨⟨bracket, -⟩, others⟩ := List.forall_mem_cons.mp plain
  have read : next (c :: more ++ '<' :: behind) = .event (.text (c :: more)) ('<' :: behind) := by
    have before : ∀ d ∈ more, (d != '<') = true := fun d member => by simp [(others d member).1]
    rw [List.cons_append, next_text bracket, List.takeWhile_append_of_pos before,
      List.dropWhile_append_of_pos before]
    simp
  have literal : ∀ text : List Char, (∀ d ∈ text, d ≠ '<' ∧ d ≠ '&') → unescape text = some text := by
    intro text
    induction text with
    | nil => simp [unescape]
    | cons d text ih =>
      intro known
      obtain ⟨⟨-, reference⟩, later⟩ := List.forall_mem_cons.mp known
      simp [unescape, reference, ih later]
  refine h.event read ?_
  rw [checkEvent, literal _ plain]
  rfl

end Balances

theorem enclosed_eq (text : List Char) : enclosed text =
    '<' :: ("fragment".toList ++ '>' :: (text ++ "</fragment>".toList)) := by
  have tag : "<fragment>".toList = '<' :: ("fragment".toList ++ ['>']) := by decide
  unfold enclosed
  rw [tag]
  simp only [List.append_assoc, List.cons_append, List.nil_append]

theorem isFragment_of_balances {text : List Char}
    (h : Balances ["fragment".toList] (text ++ "</fragment>".toList)) :
    isFragment (String.ofList text) = true := by
  rw [isFragment, String.toList_ofList, enclosed_eq]
  exact isBalanced_of_balances (h.start (by decide)) (by decide)

theorem balances_closing : Balances ["fragment".toList] "</fragment>".toList := by
  have tag : "</fragment>".toList = '<' :: '/' :: ("fragment".toList ++ ['>']) := by decide
  rw [tag]
  exact Balances.nil.close (by decide)

end Markup

end TaintScan
