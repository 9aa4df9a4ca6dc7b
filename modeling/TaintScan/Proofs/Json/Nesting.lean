import TaintScan.Proofs.Json.Scalar

namespace TaintScan.Json

mutual

/-- How deep a text nests from a place where some arrays and objects are open. Brackets inside a
string do not count. -/
def nestingFrom : Nat → List Char → Nat
  | level, [] => level
  | level, c :: rest =>
    if c = '"' then nestingInString level rest
    else if c = '[' ∨ c = '{' then nestingFrom (level + 1) rest
    else if c = ']' ∨ c = '}' then max level (nestingFrom (level - 1) rest)
    else nestingFrom level rest

def nestingInString : Nat → List Char → Nat
  | level, [] => level
  | level, '"' :: rest => nestingFrom level rest
  | level, '\\' :: _ :: rest => nestingInString level rest
  | level, _ :: rest => nestingInString level rest

end

def nesting (text : String) : Nat := nestingFrom 0 text.toList

mutual

theorem le_nestingFrom : (level : Nat) → (cs : List Char) → level ≤ nestingFrom level cs
  | _, [] => by simp [nestingFrom]
  | level, c :: rest => by
    have inString := le_nestingInString level rest
    have opened := le_nestingFrom (level + 1) rest
    have same := le_nestingFrom level rest
    rw [nestingFrom]
    split
    · exact inString
    split
    · omega
    split
    · omega
    · exact same

theorem le_nestingInString : (level : Nat) → (cs : List Char) → level ≤ nestingInString level cs
  | _, [] => by simp [nestingInString]
  | level, c :: [] => by
    unfold nestingInString
    split <;> simp_all [nestingFrom, nestingInString]
  | level, c :: d :: rest => by
    have behind := le_nestingInString level rest
    have next := le_nestingInString level (d :: rest)
    have closed := le_nestingFrom level (d :: rest)
    unfold nestingInString
    split
    all_goals simp_all

end

def isFlat (c : Char) : Bool := c != '"' && c != '[' && c != '{' && c != ']' && c != '}'

theorem nestingFrom_flat {cs : List Char} (flat : ∀ c ∈ cs, isFlat c = true) (level : Nat)
    (rest : List Char) : nestingFrom level (cs ++ rest) = nestingFrom level rest := by
  induction cs with
  | nil => rfl
  | cons c cs ih =>
    have first : isFlat c = true := flat c List.mem_cons_self
    have others := ih fun d member => flat d (List.mem_cons_of_mem c member)
    simp only [isFlat, Bool.and_eq_true, bne_iff_ne] at first
    rw [List.cons_append, nestingFrom, others]
    simp [first]

theorem isFlat_of_mem_newLine (level : Nat) : ∀ c ∈ Value.newLine level, isFlat c = true := by
  intro c member
  rcases List.mem_cons.mp member with rfl | blank
  · rfl
  · rw [(List.mem_replicate.mp blank).2]
    rfl

theorem isFlat_of_isDigit {c : Char} (digit : c.isDigit = true) : isFlat c = true := by
  have quote : c ≠ '"' := Text.ne_of_isDigit digit rfl
  have list : c ≠ '[' ∧ c ≠ ']' := ⟨Text.ne_of_isDigit digit rfl, Text.ne_of_isDigit digit rfl⟩
  have record : c ≠ '{' ∧ c ≠ '}' := ⟨Text.ne_of_isDigit digit rfl, Text.ne_of_isDigit digit rfl⟩
  simp [isFlat, quote, list, record]

theorem isFlat_of_mem_natural (n : Nat) : ∀ c ∈ Text.natural n, isFlat c = true :=
  fun c member => isFlat_of_isDigit (Text.isDigit_of_mem_natural c member)

theorem isFlat_of_mem_integer (n : Int) : ∀ c ∈ Text.integer n, isFlat c = true := by
  have digits := isFlat_of_mem_natural n.natAbs
  unfold Text.integer
  split
  · exact List.forall_mem_cons.mpr ⟨by decide, digits⟩
  · exact digits

theorem isFlat_of_mem_chars (n : Numeral) : ∀ c ∈ n.chars, isFlat c = true := by
  have sign : ∀ c ∈ (if n.negative then ['-'] else []), isFlat c = true := by
    split
    · simp [isFlat]
    · simp
  have fraction : ∀ c ∈ n.fractionChars, isFlat c = true := by
    unfold Numeral.fractionChars
    split
    · simp
    · refine List.forall_mem_cons.mpr ⟨by decide, fun c member => ?_⟩
      obtain ⟨d, -, rfl⟩ := List.mem_map.mp member
      exact isFlat_of_isDigit (isDigit_digitChar d)
  have exponent : ∀ c ∈ n.exponentChars, isFlat c = true := by
    unfold Numeral.exponentChars
    split
    · simp
    · exact List.forall_mem_cons.mpr ⟨by decide, isFlat_of_mem_integer _⟩
  rw [n.chars_eq]
  simp only [List.forall_mem_append]
  exact ⟨⟨⟨sign, isFlat_of_mem_natural n.whole⟩, fraction⟩, exponent⟩

theorem nestingInString_cons {c : Char} (quote : c ≠ '"') (backslash : c ≠ '\\') (level : Nat)
    (rest : List Char) : nestingInString level (c :: rest) = nestingInString level rest := by
  rw [nestingInString]
  all_goals simp_all

theorem nestingInString_escapeChar (c : Char) (level : Nat) (rest : List Char) :
    nestingInString level (escapeChar c ++ rest) = nestingInString level rest := by
  have hex : ∀ n < 16, Text.hexDigit n ≠ '"' ∧ Text.hexDigit n ≠ '\\' := by decide
  rcases escapeChar_cases c with ⟨e, shape, -⟩ | ⟨shape, control⟩ | ⟨shape, quote, backslash, -⟩
  · simp [shape, nestingInString]
  · obtain ⟨quote, backslash⟩ := hex (c.toNat / 16) (by omega)
    obtain ⟨quote', backslash'⟩ := hex (c.toNat % 16) (by omega)
    simp only [shape, List.cons_append, List.nil_append]
    rw [nestingInString, nestingInString_cons (by decide) (by decide),
      nestingInString_cons (by decide) (by decide), nestingInString_cons quote backslash,
      nestingInString_cons quote' backslash']
  · rw [shape]
    exact nestingInString_cons quote backslash level rest

theorem nestingFrom_quoted (s : String) (level : Nat) (rest : List Char) :
    nestingFrom level (quoted s ++ rest) = nestingFrom level rest := by
  have inside : ∀ cs : List Char, nestingInString level (cs.flatMap escapeChar ++ '"' :: rest) =
      nestingFrom level rest := by
    intro cs
    induction cs with
    | nil => simp [nestingInString]
    | cons c cs ih =>
      rw [List.flatMap_cons, List.append_assoc, nestingInString_escapeChar]
      exact ih
  rw [quoted_append, nestingFrom, if_pos rfl, inside]

open Value

theorem max_unnested (level : Nat) (rest : List Char) :
    max (level + 0) (nestingFrom level rest) = nestingFrom level rest :=
  Nat.max_eq_right (le_nestingFrom level rest)

theorem nestingFrom_enclosed {level deepest : Nat} {body : List Char} (indent : Nat)
    {left right : Char} (pair : left = '[' ∧ right = ']' ∨ left = '{' ∧ right = '}')
    (rest : List Char)
    (inside : ∀ behind, nestingFrom (level + 1) (body ++ behind) =
      max (level + 1 + deepest) (nestingFrom (level + 1) behind)) :
    nestingFrom level (left :: (body ++ (newLine indent ++ right :: rest))) =
      max (level + (deepest + 1)) (nestingFrom level rest) := by
  have close : nestingFrom (level + 1) (newLine indent ++ right :: rest) =
      max (level + 1) (nestingFrom level rest) := by
    rw [nestingFrom_flat (isFlat_of_mem_newLine indent)]
    rcases pair with ⟨-, rfl⟩ | ⟨-, rfl⟩ <;> simp [nestingFrom]
  have whole := inside (newLine indent ++ right :: rest)
  rw [close] at whole
  rcases pair with ⟨rfl, -⟩ | ⟨rfl, -⟩
  all_goals
    simp only [nestingFrom, Char.reduceEq, if_false, true_or, or_true, if_true, whole]
    omega

theorem nestingFrom_line (indent level : Nat) (rest : List Char) :
    nestingFrom level (newLine indent ++ rest) = nestingFrom level rest :=
  nestingFrom_flat (isFlat_of_mem_newLine indent) level rest

theorem nestingFrom_key (name : String) (level : Nat) (rest : List Char) :
    nestingFrom level (quoted name ++ ([':', ' '] ++ rest)) = nestingFrom level rest := by
  rw [nestingFrom_quoted, nestingFrom_flat (List.all_eq_true.mp (by decide))]

theorem nestingFrom_comma (level : Nat) (rest : List Char) :
    nestingFrom level (',' :: rest) = nestingFrom level rest := by
  rw [← List.singleton_append, nestingFrom_flat (List.all_eq_true.mp (by decide))]

mutual

theorem nestingFrom_indented : (v : Value) → (level indent : Nat) → (rest : List Char) →
    nestingFrom level (v.indented indent ++ rest) = max (level + v.depth) (nestingFrom level rest)
  | .null, level, _, rest => by
    have flat : nestingFrom level ("null".toList ++ rest) = nestingFrom level rest :=
      nestingFrom_flat (List.all_eq_true.mp (by decide)) level rest
    exact flat.trans (max_unnested level rest).symm
  | .bool true, level, _, rest => by
    have flat : nestingFrom level ("true".toList ++ rest) = nestingFrom level rest :=
      nestingFrom_flat (List.all_eq_true.mp (by decide)) level rest
    exact flat.trans (max_unnested level rest).symm
  | .bool false, level, _, rest => by
    have flat : nestingFrom level ("false".toList ++ rest) = nestingFrom level rest :=
      nestingFrom_flat (List.all_eq_true.mp (by decide)) level rest
    exact flat.trans (max_unnested level rest).symm
  | .number n, level, _, rest => by
    have flat := nestingFrom_flat (isFlat_of_mem_chars n) level rest
    exact flat.trans (max_unnested level rest).symm
  | .string s, level, _, rest =>
    (nestingFrom_quoted s level rest).trans (max_unnested level rest).symm
  | .array [], level, indent, rest => by
    simp [indented, nestingFrom, depth, depthItems]
  | .array (item :: more), level, indent, rest => by
    have inside := nestingFrom_indentedItems (item :: more) (level + 1) (indent + 1)
    have whole := nestingFrom_enclosed indent (.inl ⟨rfl, rfl⟩) rest inside
    simpa [indented, depth] using whole
  | .object [], level, indent, rest => by
    simp [indented, nestingFrom, depth, depthMembers]
  | .object (member :: more), level, indent, rest => by
    have inside := nestingFrom_indentedMembers (member :: more) (level + 1) (indent + 1)
    have whole := nestingFrom_enclosed indent (.inr ⟨rfl, rfl⟩) rest inside
    simpa [indented, depth] using whole

theorem nestingFrom_indentedItems : (items : List Value) → (level indent : Nat) →
    (rest : List Char) → nestingFrom level (indentedItems indent items ++ rest) =
      max (level + depthItems items) (nestingFrom level rest)
  | [], level, _, rest => (max_unnested level rest).symm
  | [item], level, indent, rest => by
    have first := nestingFrom_indented item level indent rest
    rw [indentedItems, List.append_assoc, nestingFrom_line, first, depthItems, depthItems]
    omega
  | item :: next :: more, level, indent, rest => by
    have others := nestingFrom_indentedItems (next :: more) level indent rest
    have first := nestingFrom_indented item level indent
      (',' :: (indentedItems indent (next :: more) ++ rest))
    rw [nestingFrom_comma, others] at first
    have text : indentedItems indent (item :: next :: more) ++ rest = newLine indent ++
        (item.indented indent ++ ',' :: (indentedItems indent (next :: more) ++ rest)) := by
      simp [indentedItems]
    have deepest : depthItems (item :: next :: more) = max item.depth (depthItems (next :: more)) := rfl
    rw [text, nestingFrom_line, first, deepest]
    omega

theorem nestingFrom_indentedMembers : (members : List (String × Value)) → (level indent : Nat) →
    (rest : List Char) → nestingFrom level (indentedMembers indent members ++ rest) =
      max (level + depthMembers members) (nestingFrom level rest)
  | [], level, _, rest => (max_unnested level rest).symm
  | [(name, value)], level, indent, rest => by
    have first := nestingFrom_indented value level indent rest
    have text : indentedMembers indent [(name, value)] ++ rest = newLine indent ++
        (quoted name ++ ([':', ' '] ++ (value.indented indent ++ rest))) := by
      simp [indentedMembers]
    rw [text, nestingFrom_line, nestingFrom_key, first, depthMembers, depthMembers]
    omega
  | (name, value) :: next :: more, level, indent, rest => by
    have others := nestingFrom_indentedMembers (next :: more) level indent rest
    have first := nestingFrom_indented value level indent
      (',' :: (indentedMembers indent (next :: more) ++ rest))
    rw [nestingFrom_comma, others] at first
    have text : indentedMembers indent ((name, value) :: next :: more) ++ rest = newLine indent ++
        (quoted name ++ ([':', ' '] ++ (value.indented indent ++ ',' ::
          (indentedMembers indent (next :: more) ++ rest)))) := by
      simp [indentedMembers]
    have deepest : depthMembers ((name, value) :: next :: more) =
        max value.depth (depthMembers (next :: more)) := rfl
    rw [text, nestingFrom_line, nestingFrom_key, first, deepest]
    omega

end

theorem nesting_pretty (v : Value) : nesting v.pretty = v.depth := by
  have text := nestingFrom_indented v 0 0 []
  rw [List.append_nil] at text
  rw [nesting, pretty, String.toList_ofList, text, nestingFrom]
  omega

example : nesting "[[\"]]\\\"[[[\"], []]" = 2 := by decide

end TaintScan.Json
