namespace TaintScan.Text

def pieces (separates : α → Bool) : List α → List (List α)
  | [] => [[]]
  | c :: rest =>
    if separates c then [] :: pieces separates rest
    else
      match pieces separates rest with
      | [] => [[c]]
      | piece :: others => (c :: piece) :: others

theorem pieces_ne_nil (separates : α → Bool) (cs : List α) : pieces separates cs ≠ [] := by
  cases cs with
  | nil => simp [pieces]
  | cons c rest =>
    rw [pieces]
    split
    · simp
    · split <;> simp

theorem not_separates_of_mem_pieces {separates : α → Bool} {cs : List α} :
    ∀ piece ∈ pieces separates cs, ∀ c ∈ piece, separates c = false := by
  induction cs with
  | nil => simp [pieces]
  | cons c rest ih =>
    rw [pieces]
    split
    · simpa using ih
    · rename_i hc
      split
      · simpa using hc
      · rename_i first others hp
        rw [hp] at ih
        intro piece hm d hd
        rcases List.mem_cons.mp hm with rfl | hm
        · rcases List.mem_cons.mp hd with rfl | hd
          · simpa using hc
          · exact ih first (by simp) d hd
        · exact ih piece (by simp [hm]) d hd

end TaintScan.Text
