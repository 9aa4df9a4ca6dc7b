import TaintScan.Proofs.Markup.Attributes

namespace TaintScan.Markup

/-- The reader of a tag passes over a text and looks for the end of the tag behind it. -/
def PassedOver (piece : List Char) : Prop :=
  ∀ rest, splitTag? none (piece ++ rest) =
    (splitTag? none rest).map fun found => (piece ++ found.1, found.2)

namespace PassedOver

variable {piece other value : List Char}

theorem nil : PassedOver [] := by
  intro rest
  simp

theorem append (h : PassedOver piece) (h' : PassedOver other) : PassedOver (piece ++ other) := by
  intro rest
  rw [List.append_assoc, h, h', Option.map_map]
  simp [Function.comp_def]

theorem of_unquoted (h : ∀ c ∈ piece, c ≠ '>' ∧ c ≠ '"' ∧ c ≠ '\x27') : PassedOver piece := by
  induction piece with
  | nil => exact nil
  | cons c cs ih =>
    obtain ⟨⟨ends, double, single⟩, others⟩ := List.forall_mem_cons.mp h
    intro rest
    simp [splitTag?, ends, double, single, ih others rest, Function.comp_def]

theorem quoted (h : ∀ c ∈ value, c ≠ '"') : PassedOver ('"' :: (value ++ ['"'])) := by
  intro rest
  -- Between quotes anything may stand but the quote, so the induction is on the value in it.
  have closes : splitTag? (some '"') (value ++ '"' :: rest) =
      (splitTag? none rest).map fun found => (value ++ '"' :: found.1, found.2) := by
    induction value with
    | nil => simp [splitTag?]
    | cons c cs ih =>
      obtain ⟨different, others⟩ := List.forall_mem_cons.mp h
      simp [splitTag?, different, ih others, Function.comp_def]
  simp [splitTag?, closes, Function.comp_def]

theorem split (h : PassedOver piece) (rest : List Char) :
    splitTag? none (piece ++ '>' :: rest) = some (piece, rest) := by
  rw [h]
  simp [splitTag?]

end PassedOver

section Tags

variable {name rest : List Char} {as : List RawAttribute}

theorem unquoted_of_solid (solid : Name.Solid name) : ∀ c ∈ name, c ≠ '>' ∧ c ≠ '"' ∧ c ≠ '\x27' := by
  intro c member
  have known := solid.chars c member
  exact ⟨Name.ne_of_isNameChar known (by decide), Name.ne_of_isNameChar known (by decide),
    Name.ne_of_isNameChar known (by decide)⟩

theorem passedOver_written {a : RawAttribute} (quotable : a.Quotable) : PassedOver a.written := by
  have parts : a.written = (' ' :: (a.key ++ ['='])) ++ '"' :: (a.value ++ ['"']) := by
    simp [RawAttribute.written]
  rw [parts]
  refine .append (.of_unquoted (List.forall_mem_cons.mpr ⟨by decide, ?_⟩)) (.quoted quotable.value)
  exact List.forall_mem_append.mpr ⟨unquoted_of_solid quotable.key, by simp⟩

theorem passedOver_tag (solid : Name.Solid name) (quotable : ∀ a ∈ as, a.Quotable) :
    PassedOver (name ++ as.flatMap RawAttribute.written) := by
  refine .append (.of_unquoted (unquoted_of_solid solid)) ?_
  induction as with
  | nil => exact .nil
  | cons a as ih =>
    obtain ⟨this, others⟩ := List.forall_mem_cons.mp quotable
    rw [List.flatMap_cons]
    exact .append (passedOver_written this) (ih others)

theorem ofContent_tag (solid : Name.Solid name) (as : List RawAttribute) :
    Tag.ofContent (name ++ as.flatMap RawAttribute.written) =
      ⟨name, as.flatMap RawAttribute.written⟩ := by
  have goesOn : ∀ c ∈ name, (!isSpace c) = true := fun c member => by
    rw [isSpace_of_isNameChar (solid.chars c member)]
    rfl
  rw [Tag.ofContent, List.takeWhile_append_of_pos goesOn, List.dropWhile_append_of_pos goesOn]
  cases as with
  | nil => simp
  | cons a as => simp [RawAttribute.written, isSpace]

theorem getLast?_tag (solid : Name.Solid name) (as : List RawAttribute) :
    (name ++ as.flatMap RawAttribute.written).getLast? ≠ some '/' := by
  rcases List.eq_nil_or_concat as with rfl | ⟨front, last, rfl⟩
  · intro slash
    rw [List.flatMap_nil, List.append_nil] at slash
    exact Name.ne_of_isNameChar (solid.chars '/' (List.mem_of_getLast? slash)) (by decide) rfl
  · rw [List.concat_eq_append, List.flatMap_append, List.flatMap_singleton, RawAttribute.written,
      ← List.append_assoc, ← List.append_assoc, List.getLast?_concat]
    decide

theorem readMarkup_name (solid : Name.Solid name) (cs : List Char) :
    readMarkup (name ++ cs) = readTag (name ++ cs) := by
  obtain ⟨c, more, rfl⟩ := List.exists_cons_of_ne_nil solid.nonempty
  have first := solid.chars c List.mem_cons_self
  rw [List.cons_append]
  unfold readMarkup
  split
  · rename_i same
    cases same
  · rename_i same
    exact absurd (List.cons.inj same).1 (Name.ne_of_isNameChar first (by decide))
  · rename_i same
    exact absurd (List.cons.inj same).1 (Name.ne_of_isNameChar first (by decide))
  · rename_i same
    exact absurd (List.cons.inj same).1 (Name.ne_of_isNameChar first (by decide))
  · rfl

theorem next_of_readMarkup {e : Event} {cs : List Char} (h : readMarkup cs = .event e rest) :
    next ('<' :: cs) = .event e rest := by
  rw [next, h]

theorem next_text {c : Char} {cs : List Char} (plain : c ≠ '<') : next (c :: cs) =
    .event (.text (c :: cs.takeWhile (· != '<'))) (cs.dropWhile (· != '<')) := by
  unfold next
  split
  · rename_i same
    cases same
  · rename_i same
    exact absurd (List.cons.inj same).1 plain
  · rename_i same
    cases same
    rfl

theorem next_start (solid : Name.Solid name) (quotable : ∀ a ∈ as, a.Quotable) :
    next ('<' :: (name ++ as.flatMap RawAttribute.written ++ '>' :: rest)) =
      .event (.start ⟨name, as.flatMap RawAttribute.written⟩) rest := by
  have unslashed := beq_eq_false_iff_ne.mpr (getLast?_tag solid as)
  apply next_of_readMarkup
  rw [List.append_assoc, readMarkup_name solid, ← List.append_assoc, readTag,
    (passedOver_tag solid quotable).split]
  simp only [unslashed, ofContent_tag solid]
  rfl

theorem next_empty (solid : Name.Solid name) (quotable : ∀ a ∈ as, a.Quotable) :
    next ('<' :: (name ++ as.flatMap RawAttribute.written ++ '/' :: '>' :: rest)) =
      .event (.empty ⟨name, as.flatMap RawAttribute.written⟩) rest := by
  -- The slash belongs to what is passed over: only the bracket behind it ends the tag.
  have slashed : PassedOver (name ++ as.flatMap RawAttribute.written ++ ['/']) :=
    .append (passedOver_tag solid quotable) (.of_unquoted (by simp))
  have inside : name ++ as.flatMap RawAttribute.written ++ '/' :: '>' :: rest =
      (name ++ as.flatMap RawAttribute.written ++ ['/']) ++ '>' :: rest := by simp
  apply next_of_readMarkup
  rw [List.append_assoc, readMarkup_name solid, ← List.append_assoc, readTag, inside, slashed.split]
  simp [ofContent_tag solid]

theorem closingName_name (solid : Name.Solid name) : closingName name = name := by
  have bare : ∀ c ∈ name.reverse, isSpace c = false := fun c member =>
    isSpace_of_isNameChar (solid.chars c (List.mem_reverse.mp member))
  have kept : name.reverse.dropWhile isSpace = name.reverse := by
    cases reversed : name.reverse with
    | nil => rfl
    | cons c more => rw [List.dropWhile_cons_of_neg (by simp [bare c (by simp [reversed])])]
  rw [closingName, kept, List.reverse_reverse, ite_self]

theorem splitAt?_of_bare {stop : Char} {cs : List Char} (bare : ∀ c ∈ cs, c ≠ stop) :
    splitAt? stop (cs ++ stop :: rest) = some (cs, rest) := by
  have before : ∀ c ∈ cs, (c != stop) = true := fun c member => by simpa using bare c member
  rw [splitAt?, List.dropWhile_append_of_pos before, List.takeWhile_append_of_pos before]
  simp

theorem next_close (solid : Name.Solid name) :
    next ('<' :: '/' :: (name ++ '>' :: rest)) = .event (.close name) rest := by
  have bare : ∀ c ∈ name, c ≠ '>' := fun c member => (unquoted_of_solid solid c member).1
  apply next_of_readMarkup
  rw [readMarkup, readClose, splitAt?_of_bare bare]
  simp [closingName_name solid]

theorem eachAttribute_tag (lenient : Bool) (name : List Char) (quotable : ∀ a ∈ as, a.Quotable) :
    Tag.eachAttribute lenient ⟨name, as.flatMap RawAttribute.written⟩ = .ok as :=
  readEach_flatMap_written lenient quotable rfl

end Tags

theorem readFrom_of_next {cs rest : List Char} {e : Event} (read : next cs = .event e rest)
    (position : Nat) : readFrom position cs =
      (readFrom (position + (Text.byteCount cs - Text.byteCount rest)) rest).push e := by
  rw [readFrom]
  split
  · rename_i finished
    rw [read] at finished
    cases finished
  · rename_i fault
    rw [read] at fault
    cases fault
  · rename_i same
    rw [read] at same
    cases same
    rfl

end TaintScan.Markup
