import TaintScan.Name.Qualified
import TaintScan.Proofs.Name

namespace TaintScan.QualifiedName

variable {q r : QualifiedName} {cs space name : List Char}

/-- The texts that are Clark forms, each with the name it stands for. Braces with nothing between
them stand for no namespace. -/
inductive ClarkForm : List Char → QualifiedName → Prop
  | bare {name : List Char} (valid : Name.isUncoloned name = true) :
      ClarkForm name (plain (String.ofList name))
  | unspaced {name : List Char} (valid : Name.isUncoloned name = true) :
      ClarkForm ('{' :: '}' :: name) (plain (String.ofList name))
  | spaced {space name : List Char} (some : space ≠ []) (closed : '}' ∉ space)
      (valid : Name.isUncoloned name = true) :
      ClarkForm ('{' :: (space ++ '}' :: name)) (inSpace (String.ofList space) (String.ofList name))

/-- A text has no brace in front, or no brace closes the one in front, or the first that does divides
the text. -/
theorem clark_cases (cs : List Char) : cs.head? ≠ some '{' ∨
    (∃ rest, cs = '{' :: rest ∧ '}' ∉ rest) ∨
      ∃ space name, cs = '{' :: (space ++ '}' :: name) ∧ '}' ∉ space := by
  by_cases front : cs.head? = some '{'
  · rcases List.head?_eq_some_iff.mp front with ⟨rest, rfl⟩
    by_cases closes : '}' ∈ rest
    · rcases List.eq_append_cons_of_mem closes with ⟨space, name, rfl, closed⟩
      exact .inr (.inr ⟨space, name, rfl, closed⟩)
    · exact .inr (.inl ⟨rest, rfl, closes⟩)
  · exact .inl front

theorem splitClark?_bare (front : cs.head? ≠ some '{') :
    splitClark? cs = some (plain (String.ofList cs)) := by
  unfold splitClark?
  split
  · exact absurd rfl front
  · rfl

theorem goes_of_closed (closed : '}' ∉ space) : ∀ c ∈ space, (c != '}') = true := by
  intro c member
  rw [bne_iff_ne]
  rintro rfl
  exact closed member

theorem splitClark?_unclosed (closed : '}' ∉ cs) : splitClark? ('{' :: cs) = none := by
  have through := Text.span_append (· != '}') cs [] (goes_of_closed closed) nofun
  rw [List.append_nil] at through
  simp only [splitClark?, through]

theorem splitClark?_closed (closed : '}' ∉ space) : splitClark? ('{' :: (space ++ '}' :: name)) =
    some ⟨if space = [] then none else some (String.ofList space), String.ofList name⟩ := by
  have divided := Text.span_append (· != '}') space ('}' :: name) (goes_of_closed closed) (by simp)
  cases space with
  | nil => simp only [splitClark?, divided, plain, if_pos]
  | cons c more => simp only [splitClark?, divided, inSpace, reduceCtorEq, if_false]

theorem ofClark_eq_ok_iff_split {text : String} : ofClark text = .ok q ↔
    splitClark? text.toList = some q ∧ Name.isUncoloned q.localName.toList = true := by
  unfold ofClark
  cases divided : splitClark? text.toList with
  | none => exact ⟨nofun, nofun⟩
  | some found =>
    show (if _ then _ else _) = _ ↔ _
    split
    · rename_i valid
      exact ⟨fun same => by cases same; exact ⟨rfl, valid⟩, fun same => by rw [Option.some.inj same.1]⟩
    · rename_i invalid
      exact ⟨nofun, fun same => absurd same.2 (by rwa [← Option.some.inj same.1])⟩

theorem ClarkForm.of_split (divided : splitClark? cs = some q)
    (valid : Name.isUncoloned q.localName.toList = true) : ClarkForm cs q := by
  rcases clark_cases cs with front | ⟨rest, rfl, closed⟩ | ⟨space, name, rfl, closed⟩
  · rw [splitClark?_bare front] at divided
    cases divided
    rw [plain, String.toList_ofList] at valid
    exact .bare valid
  · rw [splitClark?_unclosed closed] at divided
    cases divided
  · rw [splitClark?_closed closed] at divided
    cases divided
    rw [String.toList_ofList] at valid
    by_cases empty : space = []
    · subst empty
      exact .unspaced valid
    · rw [if_neg empty]
      exact .spaced empty closed valid

theorem head?_ne_of_isUncoloned (valid : Name.isUncoloned name = true) : name.head? ≠ some '{' := by
  intro front
  exact Name.not_mem_of_isUncoloned valid (by decide) (List.mem_of_mem_head? front)

theorem ClarkForm.split (form : ClarkForm cs q) :
    splitClark? cs = some q ∧ Name.isUncoloned q.localName.toList = true := by
  cases form with
  | bare valid =>
    exact ⟨splitClark?_bare (head?_ne_of_isUncoloned valid), by rwa [plain, String.toList_ofList]⟩
  | @unspaced name valid =>
    have closed : '}' ∉ ([] : List Char) := nofun
    exact ⟨splitClark?_closed closed, by rwa [plain, String.toList_ofList]⟩
  | spaced some closed valid =>
    refine ⟨?_, by rwa [inSpace, String.toList_ofList]⟩
    rw [splitClark?_closed closed, if_neg some]
    rfl

theorem ofClark_eq_ok_iff {text : String} : ofClark text = .ok q ↔ ClarkForm text.toList q :=
  ofClark_eq_ok_iff_split.trans ⟨fun read => .of_split read.1 read.2, ClarkForm.split⟩

structure Spelled (q : QualifiedName) : Prop where
  valid : Name.isUncoloned q.localName.toList = true
  closed : ∀ space, q.space = some space → space ≠ "" ∧ '}' ∉ space.toList

theorem toList_clark_inSpace (space name : String) :
    (inSpace space name).clark.toList = '{' :: (space.toList ++ '}' :: name.toList) := by
  simp [inSpace, clark]

theorem ClarkForm.spelled (form : ClarkForm cs q) : q.Spelled := by
  refine ⟨form.split.2, ?_⟩
  cases form with
  | bare valid => exact nofun
  | unspaced valid => exact nofun
  | spaced some closed valid =>
    rintro space same
    cases same
    exact ⟨by simpa using some, by rwa [String.toList_ofList]⟩

theorem Spelled.clarkForm (spelled : q.Spelled) : ClarkForm q.clark.toList q := by
  rcases q with ⟨_ | space, name⟩
  · have form := ClarkForm.bare spelled.valid
    rwa [String.ofList_toList] at form
  · rcases spelled.closed space rfl with ⟨some, closed⟩
    have form := ClarkForm.spaced (by simpa using some) closed spelled.valid
    rw [String.ofList_toList, String.ofList_toList] at form
    exact (toList_clark_inSpace space name).symm ▸ form

theorem ofClark_clark_iff : ofClark q.clark = .ok q ↔ q.Spelled := by
  rw [ofClark_eq_ok_iff]
  exact ⟨ClarkForm.spelled, Spelled.clarkForm⟩

theorem Spelled.clark_inj (one : q.Spelled) (two : r.Spelled) (same : q.clark = r.clark) : q = r := by
  have first := ofClark_clark_iff.mpr one
  rw [same, ofClark_clark_iff.mpr two] at first
  exact (Except.ok.inj first).symm

theorem ClarkForm.clark_eq_iff {text : String} (form : ClarkForm text.toList q) :
    q.clark = text ↔ ¬ ['{', '}'] <+: text.toList := by
  rw [← String.toList_inj]
  generalize text.toList = cs at form
  cases form with
  | bare valid =>
    refine ⟨fun _ front => head?_ne_of_isUncoloned valid ?_, fun _ => String.toList_ofList⟩
    rcases front with ⟨more, rfl⟩
    rfl
  | unspaced valid =>
    refine ⟨fun same => ?_, fun unspaced => absurd ⟨_, rfl⟩ unspaced⟩
    have lengths := congrArg List.length same
    simp only [plain, clark, String.toList_ofList, List.length_cons] at lengths
    omega
  | @spaced space name some closed valid =>
    refine ⟨fun _ front => ?_, fun _ => ?_⟩
    · obtain ⟨c, more, rfl⟩ := List.exists_cons_of_ne_nil some
      have first := (List.cons_prefix_cons.mp (List.cons_prefix_cons.mp front).2).1
      exact closed (first ▸ List.mem_cons_self)
    · rw [toList_clark_inSpace, String.toList_ofList, String.toList_ofList]

/-- Reading a Clark form accepts exactly the grammar. What was read is written and read again as the
same name, and as the same text unless empty braces were in front; its local name is a name that
markup may carry, without colon and braces. -/
theorem reads_clark_grammar (text : String) :
    (∀ q, ofClark text = .ok q ↔ ClarkForm text.toList q) ∧
    ∀ q, ofClark text = .ok q →
      ofClark q.clark = .ok q ∧ (q.clark = text ↔ ¬ ['{', '}'] <+: text.toList) ∧
      Name.isQualified q.localName.toList = true ∧
      ':' ∉ q.localName.toList ∧ '{' ∉ q.localName.toList ∧ '}' ∉ q.localName.toList := by
  refine ⟨fun q => ofClark_eq_ok_iff, fun q read => ?_⟩
  have form := ofClark_eq_ok_iff.mp read
  have spelled := form.spelled
  have absent {d : Char} (other : Name.isPart d = false) : d ∉ q.localName.toList :=
    Name.not_mem_of_isUncoloned spelled.valid other
  exact ⟨ofClark_clark_iff.mpr spelled, form.clark_eq_iff, Name.isQualified_of_isUncoloned spelled.valid,
    absent (by decide), absent (by decide), absent (by decide)⟩

theorem reads_clark_grammar_nested :
    ofClark "\x7ba\x7b\x7bb\x7dtítulo" = .ok (inSpace "a\x7b\x7bb" "título") ∧
      ofClark (inSpace "a\x7b\x7bb" "título").clark = .ok (inSpace "a\x7b\x7bb" "título") ∧
      (inSpace "a\x7b\x7bb" "título").clark = "\x7ba\x7b\x7bb\x7dtítulo" ∧
      Name.isQualified "título".toList = true := by
  have read : ofClark "\x7ba\x7b\x7bb\x7dtítulo" = .ok (inSpace "a\x7b\x7bb" "título") := by decide
  have accepted := (reads_clark_grammar "\x7ba\x7b\x7bb\x7dtítulo").2 _ read
  exact ⟨read, accepted.1, accepted.2.1.mpr (by decide), accepted.2.2.1⟩

end TaintScan.QualifiedName
