import TaintScan.Proofs.Json.Scalar

namespace TaintScan.Json

namespace Value

mutual

def tree : Value → Tree
  | null => .null
  | bool b => .bool b
  | number n => .number n
  | string s => .string (some s)
  | array items => .array (trees items) none
  | object members => .object (memberTrees members) none

def trees : List Value → List Tree
  | [] => []
  | item :: rest => item.tree :: trees rest

def memberTrees : List (String × Value) → List (Tree × Tree)
  | [] => []
  | (name, value) :: rest => (.string (some name), value.tree) :: memberTrees rest

end

end Value

theorem skipSpace_cons {c : Char} (solid : isSpace c = false) (cs : List Char) :
    skipSpace (c :: cs) = c :: cs := List.dropWhile_cons_of_neg (by simp [solid])

theorem skipSpace_skipSpace (cs : List Char) : skipSpace (skipSpace cs) = skipSpace cs := by
  cases rest : skipSpace cs with
  | nil => rfl
  | cons c rest' =>
    have solid : isSpace c = false := by
      have first := List.head?_dropWhile_not isSpace cs
      rw [← skipSpace, rest] at first
      simpa using first
    exact skipSpace_cons solid rest'

theorem skipSpace_newLine (level : Nat) (cs : List Char) :
    skipSpace (Value.newLine level ++ cs) = skipSpace cs := by
  refine List.dropWhile_append_of_pos fun c member => ?_
  rcases List.mem_cons.mp member with rfl | blank
  · rfl
  · rw [(List.mem_replicate.mp blank).2]
    rfl

theorem endsNumber_nil : EndsNumber [] := fun _ first => nomatch first

theorem endsNumber_comma (cs : List Char) : EndsNumber (',' :: cs) := by
  rintro c ⟨rfl⟩
  decide

theorem endsNumber_newLine (level : Nat) (cs : List Char) :
    EndsNumber (Value.newLine level ++ cs) := by
  rintro c ⟨rfl⟩
  decide

section

variable {budget : Nat} {cs rest behind : List Char} {c : Char}

theorem readValue_scalar (begins : skipSpace cs = c :: rest) (list : c ≠ '[') (record : c ≠ '{') :
    readValue (budget + 1) cs = readScalar (c :: rest) := by
  simp [readValue, begins, list, record]

theorem readValue_array {body : List Char} {items : List Tree}
    (begins : skipSpace cs = '[' :: body) (first : skipSpace body = c :: rest) (inside : c ≠ ']')
    (read : readItems budget (c :: rest) = (items, none, some behind)) :
    readValue (budget + 1) cs = (.array items none, some behind) := by
  simp [readValue, begins, first, inside, read]

theorem readValue_object {body : List Char} {members : List (Tree × Tree)}
    (begins : skipSpace cs = '{' :: body) (first : skipSpace body = c :: rest) (inside : c ≠ '}')
    (read : readMembers budget (c :: rest) = (members, none, some behind)) :
    readValue (budget + 1) cs = (.object members none, some behind) := by
  simp [readValue, begins, first, inside, read]

theorem readItems_last {item : Tree} (read : readValue budget cs = (item, some rest))
    (close : skipSpace rest = ']' :: behind) :
    readItems (budget + 1) cs = ([item], none, some behind) := by
  simp [readItems, read, close]

theorem readItems_more {item : Tree} {items : List Tree} {more : List Char}
    (read : readValue budget cs = (item, some rest)) (comma : skipSpace rest = ',' :: more)
    (others : readItems budget more = (items, none, some behind)) :
    readItems (budget + 1) cs = (item :: items, none, some behind) := by
  simp [readItems, read, comma, others]

theorem readMembers_last {name : String} {value : Tree} {more : List Char}
    (begins : skipSpace cs = quoted name ++ ':' :: more)
    (read : readValue budget more = (value, some rest)) (close : skipSpace rest = '}' :: behind) :
    readMembers (budget + 1) cs = ([(.string (some name), value)], none, some behind) := by
  have key := readString_escaped name (':' :: more)
  have colon : skipSpace (':' :: more) = ':' :: more := skipSpace_cons rfl more
  rw [quoted_append] at begins
  simp [readMembers, begins, key, colon, read, close]

theorem readMembers_more {name : String} {value : Tree} {members : List (Tree × Tree)}
    {more others : List Char} (begins : skipSpace cs = quoted name ++ ':' :: more)
    (read : readValue budget more = (value, some rest)) (comma : skipSpace rest = ',' :: others)
    (remaining : readMembers budget others = (members, none, some behind)) :
    readMembers (budget + 1) cs = ((.string (some name), value) :: members, none, some behind) := by
  have key := readString_escaped name (':' :: more)
  have colon : skipSpace (':' :: more) = ':' :: more := skipSpace_cons rfl more
  rw [quoted_append] at begins
  simp [readMembers, begins, key, colon, read, comma, remaining]

end

namespace Value

theorem exists_indented (v : Value) (level : Nat) :
    ∃ c cs, v.indented level = c :: cs ∧ isSpace c = false ∧ c ≠ ']' := by
  cases v with
  | null => exact ⟨'n', _, rfl, rfl, by decide⟩
  | bool b => cases b <;> exact ⟨_, _, rfl, rfl, by decide⟩
  | number n =>
    obtain ⟨c, cs, shape, numeric⟩ := n.exists_chars
    have solid : c ≠ ' ' ∧ c ≠ '\n' ∧ c ≠ '\t' ∧ c ≠ '\r' :=
      ⟨ne_of_isNumeric numeric rfl, ne_of_isNumeric numeric rfl, ne_of_isNumeric numeric rfl,
        ne_of_isNumeric numeric rfl⟩
    exact ⟨c, cs, shape, by simp [isSpace, solid], ne_of_isNumeric numeric rfl⟩
  | string s => exact ⟨'"', _, rfl, rfl, by decide⟩
  | array items => cases items <;> exact ⟨'[', _, rfl, rfl, by decide⟩
  | object members => cases members <;> exact ⟨'{', _, rfl, rfl, by decide⟩

theorem skipSpace_indented (v : Value) (level : Nat) (rest : List Char) :
    skipSpace (v.indented level ++ rest) = v.indented level ++ rest := by
  obtain ⟨c, cs, shape, solid, -⟩ := v.exists_indented level
  rw [shape]
  exact skipSpace_cons solid (cs ++ rest)

theorem exists_budget (v : Value) (level : Nat) {budget : Nat}
    (enough : (v.indented level).length ≤ budget) : ∃ b, budget = b + 1 := by
  obtain ⟨c, cs, shape, -⟩ := v.exists_indented level
  rw [shape, List.length_cons] at enough
  exact ⟨budget - 1, by omega⟩

theorem skipSpace_line (v : Value) (level : Nat) (rest : List Char) :
    skipSpace (newLine level ++ (v.indented level ++ rest)) = v.indented level ++ rest := by
  rw [skipSpace_newLine, skipSpace_indented]

theorem skipSpace_quoted (s : String) (rest : List Char) :
    skipSpace (quoted s ++ rest) = quoted s ++ rest := by
  rw [quoted_append]
  exact skipSpace_cons rfl _

theorem skipSpace_blank (v : Value) (level : Nat) (rest : List Char) :
    skipSpace (' ' :: (v.indented level ++ rest)) = v.indented level ++ rest := by
  rw [skipSpace, List.dropWhile_cons_of_pos rfl]
  exact v.skipSpace_indented level rest

theorem skipSpace_closing (level : Nat) {c : Char} (solid : isSpace c = false) (rest : List Char) :
    skipSpace (newLine level ++ c :: rest) = c :: rest := by
  rw [skipSpace_newLine, skipSpace_cons solid]

theorem length_newLine (level : Nat) : (newLine level).length = 2 * level + 1 := by simp [newLine]

theorem exists_indentedItems (level : Nat) (item : Value) (more : List Value) :
    ∃ tail, indentedItems level (item :: more) = newLine level ++ (item.indented level ++ tail) := by
  cases more with
  | nil => exact ⟨[], by simp [indentedItems]⟩
  | cons next more => exact ⟨',' :: indentedItems level (next :: more), by simp [indentedItems]⟩

theorem exists_indentedMembers (level : Nat) (name : String) (value : Value)
    (more : List (String × Value)) :
    ∃ tail, indentedMembers level ((name, value) :: more) = newLine level ++ (quoted name ++ tail) := by
  cases more with
  | nil => exact ⟨':' :: ' ' :: value.indented level, by simp [indentedMembers]⟩
  | cons next more =>
    exact ⟨':' :: ' ' :: (value.indented level ++ ',' :: indentedMembers level (next :: more)),
      by simp [indentedMembers]⟩

end Value

open Value

mutual

theorem readValue_indented : (v : Value) → {level budget : Nat} → {cs rest : List Char} →
    skipSpace cs = v.indented level ++ rest → EndsNumber rest →
    (v.indented level).length ≤ budget → readValue budget cs = (v.tree, some rest)
  | .null, _, _, _, _, begins, _, enough => by
    obtain ⟨budget, rfl⟩ := exists_budget _ _ enough
    rw [readValue_scalar begins (by decide) (by decide)]
    rfl
  | .bool b, _, _, _, _, begins, _, enough => by
    obtain ⟨budget, rfl⟩ := exists_budget _ _ enough
    cases b
    all_goals
      rw [readValue_scalar begins (by decide) (by decide)]
      rfl
  | .number n, _, _, _, _, begins, ends, enough => by
    obtain ⟨budget, rfl⟩ := exists_budget _ _ enough
    obtain ⟨c, cs, shape, numeric⟩ := n.exists_chars
    have list : c ≠ '[' := ne_of_isNumeric numeric rfl
    have record : c ≠ '{' := ne_of_isNumeric numeric rfl
    rw [indented, shape, List.cons_append] at begins
    rw [readValue_scalar begins list record, ← List.cons_append, ← shape, readScalar_chars n ends]
    rfl
  | .string s, _, _, cs, rest, begins, _, enough => by
    obtain ⟨budget, rfl⟩ := exists_budget _ _ enough
    have text : skipSpace cs = '"' :: (s.toList.flatMap escapeChar ++ '"' :: rest) := by
      rw [begins, indented, quoted_append]
    rw [readValue_scalar text (by decide) (by decide)]
    exact readString_escaped s rest
  | .array [], _, _, cs, rest, begins, _, enough => by
    obtain ⟨budget, rfl⟩ := exists_budget _ _ enough
    have close : skipSpace (']' :: rest) = ']' :: rest := skipSpace_cons rfl rest
    simp [readValue, begins, indented, close, tree, trees]
  | .array (item :: more), level, _, cs, rest, begins, _, enough => by
    obtain ⟨budget, rfl⟩ := exists_budget _ _ enough
    have text : skipSpace cs =
        '[' :: (indentedItems (level + 1) (item :: more) ++ (newLine level ++ ']' :: rest)) := by
      rw [begins]
      simp [indented]
    have shorter : (indentedItems (level + 1) (item :: more)).length ≤ budget := by
      simp [indented] at enough
      omega
    obtain ⟨tail, line⟩ := exists_indentedItems (level + 1) item more
    obtain ⟨c, start, shape, -, inside⟩ := item.exists_indented (level + 1)
    have first : skipSpace (indentedItems (level + 1) (item :: more) ++
        (newLine level ++ ']' :: rest)) = c :: (start ++ tail ++ (newLine level ++ ']' :: rest)) := by
      rw [line, List.append_assoc, List.append_assoc, skipSpace_line, shape]
      simp
    refine readValue_array text first inside ?_
    exact readItems_indented (item :: more) (by simp) level (by rw [← first, skipSpace_skipSpace])
      shorter
  | .object [], _, _, cs, rest, begins, _, enough => by
    obtain ⟨budget, rfl⟩ := exists_budget _ _ enough
    have close : skipSpace ('}' :: rest) = '}' :: rest := skipSpace_cons rfl rest
    simp [readValue, begins, indented, close, tree, memberTrees]
  | .object ((name, value) :: more), level, _, cs, rest, begins, _, enough => by
    obtain ⟨budget, rfl⟩ := exists_budget _ _ enough
    have text : skipSpace cs = '{' :: (indentedMembers (level + 1) ((name, value) :: more) ++
        (newLine level ++ '}' :: rest)) := by
      rw [begins]
      simp [indented]
    have shorter : (indentedMembers (level + 1) ((name, value) :: more)).length ≤ budget := by
      simp [indented] at enough
      omega
    obtain ⟨tail, line⟩ := exists_indentedMembers (level + 1) name value more
    have first : skipSpace (indentedMembers (level + 1) ((name, value) :: more) ++
        (newLine level ++ '}' :: rest)) = '"' :: (name.toList.flatMap escapeChar ++ '"' ::
          (tail ++ (newLine level ++ '}' :: rest))) := by
      rw [line, List.append_assoc, skipSpace_newLine, List.append_assoc, quoted_append]
      exact skipSpace_cons rfl _
    refine readValue_object text first (by decide) ?_
    exact readMembers_indented ((name, value) :: more) (by simp) level
      (by rw [← first, skipSpace_skipSpace]) shorter

theorem readItems_indented : (items : List Value) → {level budget : Nat} → {cs rest : List Char} →
    items ≠ [] → (outer : Nat) →
    skipSpace cs = skipSpace (indentedItems level items ++ (newLine outer ++ ']' :: rest)) →
    (indentedItems level items).length ≤ budget →
    readItems budget cs = (trees items, none, some rest)
  | [], _, _, _, _, given, _, _, _ => absurd rfl given
  | [item], level, budget, cs, rest, _, outer, begins, enough => by
    have text : skipSpace cs = item.indented level ++ (newLine outer ++ ']' :: rest) := by
      rw [begins, indentedItems, List.append_assoc, skipSpace_line]
    simp only [indentedItems, List.length_append, length_newLine] at enough
    obtain ⟨budget, rfl⟩ : ∃ b, budget = b + 1 := ⟨budget - 1, by omega⟩
    exact readItems_last (readValue_indented item text (endsNumber_newLine _ _) (by omega))
      (skipSpace_closing outer rfl rest)
  | item :: next :: more, level, budget, cs, rest, _, outer, begins, enough => by
    have text : skipSpace cs = item.indented level ++ ',' ::
        (indentedItems level (next :: more) ++ (newLine outer ++ ']' :: rest)) := by
      rw [begins]
      simp [indentedItems, skipSpace_line]
    simp only [indentedItems, List.length_append, List.length_cons, length_newLine] at enough
    obtain ⟨budget, rfl⟩ : ∃ b, budget = b + 1 := ⟨budget - 1, by omega⟩
    exact readItems_more (readValue_indented item text (endsNumber_comma _) (by omega))
      (skipSpace_cons rfl _)
      (readItems_indented (next :: more) (by simp) outer rfl (by omega))

theorem readMembers_indented : (members : List (String × Value)) → {level budget : Nat} →
    {cs rest : List Char} → members ≠ [] → (outer : Nat) →
    skipSpace cs = skipSpace (indentedMembers level members ++ (newLine outer ++ '}' :: rest)) →
    (indentedMembers level members).length ≤ budget →
    readMembers budget cs = (memberTrees members, none, some rest)
  | [], _, _, _, _, given, _, _, _ => absurd rfl given
  | [(name, value)], level, budget, cs, rest, _, outer, begins, enough => by
    have text : skipSpace cs = quoted name ++ ':' :: ' ' ::
        (value.indented level ++ (newLine outer ++ '}' :: rest)) := by
      rw [begins]
      simp [indentedMembers, skipSpace_newLine, skipSpace_quoted]
    simp only [indentedMembers, List.length_append, List.length_cons, length_newLine] at enough
    obtain ⟨budget, rfl⟩ : ∃ b, budget = b + 1 := ⟨budget - 1, by omega⟩
    exact readMembers_last text
      (readValue_indented value (skipSpace_blank value level _) (endsNumber_newLine _ _) (by omega))
      (skipSpace_closing outer rfl rest)
  | (name, value) :: next :: more, level, budget, cs, rest, _, outer, begins, enough => by
    have text : skipSpace cs = quoted name ++ ':' :: ' ' :: (value.indented level ++ ',' ::
        (indentedMembers level (next :: more) ++ (newLine outer ++ '}' :: rest))) := by
      rw [begins]
      simp [indentedMembers, skipSpace_newLine, skipSpace_quoted]
    simp only [indentedMembers, List.length_append, List.length_cons, length_newLine] at enough
    obtain ⟨budget, rfl⟩ : ∃ b, budget = b + 1 := ⟨budget - 1, by omega⟩
    exact readMembers_more text
      (readValue_indented value (skipSpace_blank value level _) (endsNumber_comma _) (by omega))
      (skipSpace_cons rfl _)
      (readMembers_indented (next :: more) (by simp) outer rfl (by omega))

end

theorem readDocument_pretty (v : Value) : readDocument v.pretty.toList = ⟨v.tree, false⟩ := by
  have text : skipSpace (v.indented 0) = v.indented 0 ++ [] := by
    simpa using v.skipSpace_indented 0 []
  have read : readValue (2 * (v.indented 0).length + 2) (v.indented 0) = (v.tree, some []) :=
    readValue_indented v text endsNumber_nil (by omega)
  rw [pretty, String.toList_ofList, readDocument, read]
  rfl

end TaintScan.Json
