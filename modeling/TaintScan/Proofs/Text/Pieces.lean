import Mathlib.Data.List.TakeDrop
import TaintScan.Text.Pieces

namespace TaintScan.Text

variable {α : Type} {separates : α → Bool} {front back : List α} {mark : α}

def Whole (separates : α → Bool) (piece : List α) : Prop := ∀ a ∈ piece, separates a = false

instance (piece : List α) : Decidable (Whole separates piece) :=
  inferInstanceAs (Decidable (∀ a ∈ piece, separates a = false))

theorem pieces_append (whole : Whole separates front) (separating : separates mark = true) :
    pieces separates (front ++ mark :: back) = front :: pieces separates back := by
  induction front with
  | nil => rw [List.nil_append, pieces, if_pos separating]
  | cons a front ih =>
    obtain ⟨inside, others⟩ := List.forall_mem_cons.mp whole
    rw [List.cons_append, pieces, if_neg (by simp [inside]), ih others]

theorem pieces_whole (whole : Whole separates front) : pieces separates front = [front] := by
  induction front with
  | nil => rfl
  | cons a front ih =>
    obtain ⟨inside, others⟩ := List.forall_mem_cons.mp whole
    rw [pieces, if_neg (by simp [inside]), ih others]

theorem pieces_flatMap {others : List (List α)} (whole : Whole separates front)
    (rest : ∀ piece ∈ others, Whole separates piece) (separating : separates mark = true) :
    pieces separates (front ++ others.flatMap (mark :: ·)) = front :: others := by
  induction others generalizing front with
  | nil => rw [List.flatMap_nil, List.append_nil, pieces_whole whole]
  | cons piece others ih =>
    obtain ⟨inside, rest⟩ := List.forall_mem_cons.mp rest
    rw [List.flatMap_cons, List.cons_append, pieces_append whole separating, ih inside rest]

theorem pieces_append_cons {cs : List α} (separating : separates mark = true) :
    pieces separates (cs ++ mark :: back) = pieces separates cs ++ pieces separates back := by
  induction cs with
  | nil => exact pieces_append nofun separating
  | cons a rest ih =>
    rw [List.cons_append, pieces, pieces, ih]
    split
    · rfl
    · cases more : pieces separates rest with
      | nil => exact absurd more (pieces_ne_nil _ _)
      | cons piece others => rfl

theorem pieces_concat {cs : List α} (separating : separates mark = true) :
    pieces separates (cs ++ [mark]) = pieces separates cs ++ [[]] := pieces_append_cons separating

theorem append_flatMap_of_pieces {cs : List α} {others : List (List α)}
    (only : ∀ a ∈ cs, separates a = true → a = mark) (cut : pieces separates cs = front :: others) :
    front ++ others.flatMap (mark :: ·) = cs := by
  induction cs generalizing front others with
  | nil =>
    cases cut
    rfl
  | cons a rest ih =>
    obtain ⟨here, only⟩ := List.forall_mem_cons.mp only
    rw [pieces] at cut
    split at cut
    · rename_i separating
      cases cut
      rw [here separating, List.nil_append]
      cases more : pieces separates rest with
      | nil => exact absurd more (pieces_ne_nil _ _)
      | cons piece others => rw [List.flatMap_cons, List.cons_append, ih only more]
    · cases more : pieces separates rest with
      | nil => exact absurd more (pieces_ne_nil _ _)
      | cons piece others =>
        rw [more] at cut
        cases cut
        rw [List.cons_append, ih only more]

theorem span_append (goes : α → Bool) (front back : List α) (inside : ∀ a ∈ front, goes a = true)
    (stops : ∀ a ∈ back.head?, goes a = false) : (front ++ back).span goes = (front, back) := by
  rw [List.span_eq_takeWhile_dropWhile, List.takeWhile_append_of_pos inside,
    List.dropWhile_append_of_pos inside]
  cases back with
  | nil => simp
  | cons a back => simp [stops a rfl]

end TaintScan.Text
