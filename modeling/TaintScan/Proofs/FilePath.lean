import Mathlib.Data.List.Flatten
import TaintScan.FileTree
import TaintScan.Proofs.Text.Pieces
import TaintScan.Proofs.Text.Utf8

namespace TaintScan

namespace FilePath

variable {p q : FilePath} {names : List (List UInt8)} {name : List UInt8}

def above : List UInt8 := [dot, dot]

/-- The path begins with a dot that counts: one in front of a path from the working directory. -/
def beginsHere (p : FilePath) : Bool := !p.isAbsolute && p.pieces.head? == some [dot]

/-- The paths differ only in slashes and dots that do not count. -/
structure Same (p q : FilePath) : Prop where
  root : p.isAbsolute = q.isAbsolute
  here : p.beginsHere = q.beginsHere
  names : p.names = q.names

instance (p q : FilePath) : Decidable (p.Same q) :=
  decidable_of_iff (p.isAbsolute = q.isAbsolute ∧ p.beginsHere = q.beginsHere ∧ p.names = q.names)
    ⟨fun ⟨root, here, names⟩ => ⟨root, here, names⟩, fun ⟨root, here, names⟩ => ⟨root, here, names⟩⟩

theorem Same.refl (p : FilePath) : p.Same p := ⟨rfl, rfl, rfl⟩

theorem same_of_absolute (root : p.isAbsolute = true) (other : q.isAbsolute = true)
    (names : p.names = q.names) : p.Same q :=
  ⟨root.trans other.symm, by rw [beginsHere, beginsHere, root, other]; rfl, names⟩

structure IsName (name : List UInt8) : Prop where
  whole : Text.Whole (· == separator) name
  some : name ≠ []
  goes : name ≠ [dot]

theorem isName_of_mem_names (member : name ∈ p.names) : IsName name := by
  rcases List.mem_filter.mp member with ⟨piece, kept⟩
  rw [Bool.and_eq_true, Bool.not_eq_true', List.isEmpty_eq_false_iff, bne_iff_ne] at kept
  exact ⟨Text.not_separates_of_mem_pieces name piece, kept.1, kept.2⟩

theorem filter_names (all : ∀ name ∈ names, IsName name) :
    (names.filter fun name => !name.isEmpty && name != [dot]) = names := by
  refine List.filter_eq_self.mpr fun name member => ?_
  rw [List.isEmpty_eq_false_iff.mpr (all name member).some, bne_iff_ne.mpr (all name member).goes]
  rfl

def ofNames (names : List (List UInt8)) : FilePath :=
  ⟨if names.isEmpty then [separator] else names.flatMap (separator :: ·)⟩

theorem pieces_flatMap (all : ∀ name ∈ names, Text.Whole (· == separator) name) :
    Text.pieces (· == separator) (names.flatMap (separator :: ·)) = [] :: names := by
  have front : Text.Whole (· == separator) [] := nofun
  exact Text.pieces_flatMap front all (by decide)

theorem names_flatMap (all : ∀ name ∈ names, Text.Whole (· == separator) name) :
    FilePath.names ⟨names.flatMap (separator :: ·)⟩ =
      names.filter fun name => !name.isEmpty && name != [dot] := by
  rw [FilePath.names, pieces, pieces_flatMap all]
  rfl

theorem names_ofNames (all : ∀ name ∈ names, IsName name) : (ofNames names).names = names := by
  unfold ofNames
  split
  · rename_i none
    rw [List.isEmpty_iff.mp none]
    rfl
  · rw [names_flatMap fun name member => (all name member).whole, filter_names all]

theorem isAbsolute_ofNames (names : List (List UInt8)) : (ofNames names).isAbsolute = true := by
  cases names <;> rfl

theorem pieces_ofNames (some : names ≠ []) (all : ∀ name ∈ names, IsName name) :
    (ofNames names).pieces = [] :: names := by
  rw [pieces, ofNames, List.isEmpty_eq_false_iff.mpr some]
  exact pieces_flatMap fun name member => (all name member).whole

/-- The separators and names of the path from the root are among the bytes of any spelling, in order. -/
theorem ofNames_sublist (absolute : p.isAbsolute = true) : (ofNames p.names).bytes.Sublist p.bytes := by
  rcases p with ⟨_ | ⟨b, rest⟩⟩
  · cases absolute
  have root : b = separator := by simpa [isAbsolute] using absolute
  subst root
  have cut : pieces ⟨separator :: rest⟩ = [] :: Text.pieces (· == separator) rest := rfl
  unfold ofNames
  split
  · exact List.singleton_sublist.mpr List.mem_cons_self
  · have whole : (Text.pieces (· == separator) rest).flatMap (separator :: ·) = separator :: rest :=
      Text.append_flatMap_of_pieces (fun a _ same => beq_iff_eq.mp same) cut
    have fewer : (names ⟨separator :: rest⟩).Sublist (Text.pieces (· == separator) rest) := by
      rw [names, cut, List.filter_cons_of_neg (by decide)]
      exact List.filter_sublist
    have inside := List.Sublist.flatMap fewer (separator :: ·)
    rwa [whole] at inside

theorem names_concat (bytes : List UInt8) :
    FilePath.names ⟨bytes ++ [separator]⟩ = FilePath.names ⟨bytes⟩ := by
  rw [FilePath.names, pieces, Text.pieces_concat (by decide), List.filter_append]
  exact List.append_nil _

/-- The path goes where the directory is, and from there to one name more. -/
structure IsChild (p dir : FilePath) (name : List UInt8) : Prop where
  root : p.isAbsolute = dir.isAbsolute
  here : p.beginsHere = dir.beginsHere
  names : p.names = dir.names ++ [name]

theorem whole_toBytes {text : List Char} (unbroken : '/' ∉ text) :
    Text.Whole (· == separator) (Text.toBytes text) := by
  intro b member
  refine beq_eq_false_iff_ne.mpr ?_
  rintro rfl
  exact unbroken (Text.mem_of_mem_toBytes member (by decide))

/-- What the name is put behind: nothing, or the pieces of the directory, less the empty one behind a
slash at the end. -/
theorem pieces_child (dir : FilePath) {text : String} (unbroken : '/' ∉ text.toList) :
    (dir.bytes = [] ∧ (dir.child text).pieces = [Text.toBytes text.toList]) ∨
      ∃ front, front ≠ [] ∧ (dir.pieces = front ∨ dir.pieces = front ++ [[]]) ∧
        (dir.child text).pieces = front ++ [Text.toBytes text.toList] := by
  have name : Text.pieces (· == separator) (Text.toBytes text.toList) = [Text.toBytes text.toList] :=
    Text.pieces_whole (whole_toBytes unbroken)
  rcases List.eq_nil_or_concat dir.bytes with empty | ⟨front, last, bytes⟩
  · refine .inl ⟨empty, ?_⟩
    rw [child, empty, pieces]
    exact name
  · refine .inr ?_
    rw [List.concat_eq_append] at bytes
    by_cases slash : last = separator
    · subst slash
      refine ⟨Text.pieces (· == separator) front, Text.pieces_ne_nil _ _, .inr ?_, ?_⟩
      · rw [pieces, bytes, Text.pieces_concat (by decide)]
      · rw [child, bytes, if_pos (by simp), pieces, List.append_assoc, List.singleton_append,
          Text.pieces_append_cons (by decide), name]
    · refine ⟨dir.pieces, Text.pieces_ne_nil _ _, .inl rfl, ?_⟩
      have unended : ¬ (dir.bytes.isEmpty || dir.bytes.getLast? == some separator) = true := by
        simp [bytes, slash]
      rw [child, if_neg unended, pieces, Text.pieces_append_cons (by decide), name, pieces]

theorem isChild_child (dir : FilePath) {text : String} (unbroken : '/' ∉ text.toList)
    (named : IsName (Text.toBytes text.toList)) :
    (dir.child text).IsChild dir (Text.toBytes text.toList) := by
  have root : (dir.child text).isAbsolute = dir.isAbsolute := by
    rcases dir with ⟨_ | ⟨b, more⟩⟩
    · obtain ⟨b, more, bytes⟩ := List.exists_cons_of_ne_nil named.some
      have ordinary := named.whole b (by simp [bytes])
      simp only [child, isAbsolute, List.isEmpty_nil, Bool.true_or, if_pos, List.nil_append, bytes]
      simpa using ordinary
    · unfold child isAbsolute
      split <;> rfl
  have kept : [Text.toBytes text.toList].filter (fun name => !name.isEmpty && name != [dot]) =
      [Text.toBytes text.toList] := filter_names fun name member => List.mem_singleton.mp member ▸ named
  rcases pieces_child dir unbroken with ⟨empty, pieces⟩ | ⟨front, some, spelled, pieces⟩
  · have dirPieces : dir.pieces = [[]] := by rw [FilePath.pieces, empty]; rfl
    refine ⟨root, ?_, ?_⟩
    · rw [beginsHere, beginsHere, root, pieces, dirPieces]
      simp [named.goes]
    · rw [names, names, pieces, kept, dirPieces]
      rfl
  · refine ⟨root, ?_, ?_⟩
    · obtain ⟨first, more, rfl⟩ := List.exists_cons_of_ne_nil some
      have same : (dir.child text).pieces.head? = dir.pieces.head? := by
        rcases spelled with same | same <;> rw [pieces, same] <;> rfl
      rw [beginsHere, beginsHere, root, same]
    · have names : dir.names = front.filter fun name => !name.isEmpty && name != [dot] := by
        rcases spelled with same | same
        · rw [FilePath.names, same]
        · rw [FilePath.names, same, List.filter_append]
          exact List.append_nil _
      rw [FilePath.names, pieces, List.filter_append, kept, names]

end FilePath

namespace FileTree

variable {t : FileTree} {p : FilePath} {place : Place} {pieces : List (List UInt8)} {content : String}

theorem walk_names (found : t.walk place pieces = .ok (.text content)) :
    t.walk place (pieces.filter fun name => !name.isEmpty && name != [FilePath.dot]) =
      .ok (.text content) := by
  induction pieces generalizing place with
  | nil => cases found
  | cons name rest ih =>
    rw [walk] at found
    split at found
    · rename_i stays
      rw [List.filter_cons_of_neg (by simpa [or_iff_not_imp_left] using stays)]
      exact ih found
    rename_i goes
    rw [List.filter_cons_of_pos (by simpa using goes), walk, if_neg goes]
    split at found
    · rename_i above
      rw [if_pos above]
      exact ih found
    rename_i below
    rw [if_neg below]
    split at found
    · cases found
    rename_i short
    rw [if_neg short]
    split at found
    · rename_i directory
      rw [if_pos directory]
      exact ih found
    rename_i leaf
    rw [if_neg leaf]
    split at found
    · cases found
    split at found
    · rename_i last
      rw [List.isEmpty_iff.mp last]
      exact found
    · cases found

theorem walk_concat_nil (place : Place) : t.walk place (pieces ++ [[]]) ≠ .ok (.text content) := by
  intro found
  induction pieces generalizing place with
  | nil => cases found
  | cons name rest ih =>
    rw [List.cons_append, walk] at found
    split at found
    · exact ih _ found
    split at found
    · exact ih _ found
    split at found
    · cases found
    split at found
    · exact ih _ found
    split at found
    · cases found
    split at found
    · rename_i last
      exact List.append_ne_nil_of_right_ne_nil rest (List.cons_ne_nil _ _) (List.isEmpty_iff.mp last)
    · cases found

theorem walk_append {here : Place} {front back : List (List UInt8)}
    (leads : t.walk place front = .ok (.directory here)) :
    t.walk place (front ++ back) = t.walk here back := by
  induction front generalizing place with
  | nil =>
    cases leads
    rfl
  | cons name rest ih =>
    rw [walk] at leads
    rw [List.cons_append, walk]
    split at leads
    · rename_i stays
      rw [if_pos stays]
      exact ih leads
    rename_i goes
    rw [if_neg goes]
    split at leads
    · rename_i above
      rw [if_pos above]
      exact ih leads
    rename_i below
    rw [if_neg below]
    split at leads
    · cases leads
    rename_i short
    rw [if_neg short]
    split at leads
    · rename_i directory
      rw [if_pos directory]
      exact ih leads
    · split at leads
      · cases leads
      · split at leads <;> cases leads

theorem walk_insert_nil {front back : List (List UInt8)} (some : back ≠ []) (place : Place) :
    t.walk place (front ++ [] :: back) = t.walk place (front ++ back) := by
  induction front generalizing place with
  | nil =>
    rw [List.nil_append, List.nil_append, walk]
    exact if_pos rfl
  | cons name rest ih =>
    have one : (rest ++ [] :: back).isEmpty = false := by simp
    have other : (rest ++ back).isEmpty = false := by simp [some]
    rw [List.cons_append, List.cons_append, walk, walk, ih, ih, ih, one, other]

theorem walk_child (dir : FilePath) {text : String} (unbroken : '/' ∉ text.toList) (place : Place) :
    t.walk place (dir.child text).pieces = t.walk place (dir.pieces ++ [Text.toBytes text.toList]) := by
  rcases FilePath.pieces_child dir unbroken with ⟨empty, pieces⟩ | ⟨front, -, spelled, pieces⟩
  · have dirPieces : dir.pieces = [[]] := by rw [FilePath.pieces, empty]; rfl
    have stays : t.walk place ([] ++ [] :: [Text.toBytes text.toList]) =
        t.walk place ([] ++ [Text.toBytes text.toList]) := walk_insert_nil (List.cons_ne_nil _ _) place
    rw [pieces, dirPieces]
    exact stays.symm
  · rw [pieces]
    rcases spelled with same | same
    · rw [same]
    · rw [same, List.append_assoc]
      exact (walk_insert_nil (List.cons_ne_nil _ _) place).symm

/-- A path leads to a directory; an empty path leads to the directory it begins in. -/
def LeadsTo (t : FileTree) (p : FilePath) (here : Place) : Prop :=
  t.walk (t.start p) p.pieces = .ok (.directory here)

instance (t : FileTree) (p : FilePath) (here : Place) : Decidable (t.LeadsTo p here) :=
  inferInstanceAs (Decidable (_ = _))

structure Fits (p : FilePath) : Prop where
  nonnull : 0 ∉ p.bytes
  some : p.bytes ≠ []
  short : p.bytes.length ≤ pathLimit

theorem find_eq_ok {found : FileEntry} :
    t.find p = .ok found ↔ Fits p ∧ t.walk (t.start p) p.pieces = .ok found := by
  unfold find
  split
  · rename_i null
    exact ⟨nofun, fun walked => absurd (List.contains_iff_mem.mp null) walked.1.nonnull⟩
  rename_i nonnull
  split
  · rename_i empty
    exact ⟨nofun, fun walked => absurd (List.isEmpty_iff.mp empty) walked.1.some⟩
  rename_i some
  split
  · rename_i long
    exact ⟨nofun, fun walked => absurd walked.1.short (Nat.not_le.mpr long)⟩
  · rename_i short
    have fits : Fits p :=
      ⟨mt List.contains_iff_mem.mpr nonnull, mt List.isEmpty_iff.mpr some, Nat.not_lt.mp short⟩
    exact ⟨fun walked => ⟨fits, walked⟩, fun walked => walked.2⟩

theorem find_ofNames (absolute : p.isAbsolute = true) (found : t.find p = .ok (.text content)) :
    t.find (.ofNames p.names) = .ok (.text content) := by
  rcases find_eq_ok.mp found with ⟨fits, found⟩
  have inside := FilePath.ofNames_sublist absolute
  have root := FilePath.isAbsolute_ofNames p.names
  rw [start, if_pos absolute] at found
  have named : t.walk [] p.names = .ok (.text content) := walk_names found
  have some : p.names ≠ [] := by
    intro none
    rw [none] at named
    cases named
  refine find_eq_ok.mpr ⟨⟨?_, ?_, Nat.le_trans inside.length_le fits.short⟩, ?_⟩
  · exact fun member => fits.nonnull (inside.subset member)
  · intro empty
    rw [FilePath.isAbsolute, empty] at root
    cases root
  · rw [start, if_pos root, FilePath.pieces_ofNames some fun _ => FilePath.isName_of_mem_names, walk]
    exact named

theorem find_slash : t.find ⟨p.bytes ++ [FilePath.separator]⟩ ≠ .ok (.text content) := by
  intro found
  have walked := (find_eq_ok.mp found).2
  rw [FilePath.pieces, Text.pieces_concat (by decide)] at walked
  exact walk_concat_nil _ walked

theorem files_eq_ok : t.files p = .ok content ↔ t.find p = .ok (.text content) := by
  unfold files
  split
  · rename_i found
    rw [found]
    exact ⟨fun same => by cases same; rfl, fun same => by cases same; rfl⟩
  · rename_i found
    rw [found]
    exact ⟨nofun, nofun⟩
  · rename_i found
    rw [found]
    exact ⟨nofun, nofun⟩

theorem lookup_child {dir : FilePath} {here : Place} {text : String} (leads : t.LeadsTo dir here)
    (unbroken : '/' ∉ text.toList) (named : FilePath.IsName (Text.toBytes text.toList))
    (below : Text.toBytes text.toList ≠ FilePath.above)
    (read : t.files (dir.child text) = .ok content) :
    t.texts.lookup (here ++ [Text.toBytes text.toList]) = some content := by
  have walked := (find_eq_ok.mp (files_eq_ok.mp read)).2
  have start : t.start (dir.child text) = t.start dir := by
    rw [FileTree.start, FileTree.start, (FilePath.isChild_child dir unbroken named).root]
  have goes : ¬ ((Text.toBytes text.toList).isEmpty || Text.toBytes text.toList == [FilePath.dot]) = true := by
    simp [named.some, named.goes]
  have descends : ¬ (Text.toBytes text.toList == [FilePath.dot, FilePath.dot]) = true := by
    simpa [FilePath.above] using below
  rw [start, walk_child dir unbroken, walk_append leads, walk, if_neg goes, if_neg descends] at walked
  split at walked
  · cases walked
  split at walked
  · cases walked
  split at walked
  · cases walked
  · rename_i found
    cases walked
    exact found

end FileTree

end TaintScan
