import TaintScan.Proofs.FilePath
import TaintScan.Proofs.Uri.Readback
import TaintScan.Uri.File

namespace TaintScan.Uri

variable {p q : FilePath} {names : List (List UInt8)} {name : List UInt8} {s : Segment}
  {rest : List Segment} {cs : List Char}

theorem eq_of_toLower {c d : Char} (ascii : d.toNat < 128)
    (all : ∀ n < 128, (Char.ofNat n).toLower = d → Char.ofNat n = d) (lowered : c.toLower = d) : c = d := by
  by_cases low : c.toNat < 128
  · exact Text.ascii_induction (P := fun c => c.toLower = d → c = d) all low lowered
  · rw [Text.toLower_of_not_ascii low] at lowered
    exact absurd (lowered ▸ ascii) low

theorem decode_of_lower_dot {lowered : List Char} (h : Text.lowerCase cs = '.' :: lowered) :
    ∃ rest, Text.lowerCase rest = lowered ∧ Percent.decode cs = FilePath.dot :: Percent.decode rest := by
  rcases List.map_eq_cons_iff.mp h with ⟨c, rest, rfl, dot, behind⟩
  obtain rfl := eq_of_toLower (by decide) (by decide) dot
  exact ⟨rest, behind, Percent.decode_cons_of_ne (by decide) rest⟩

theorem decode_of_lower_escape {lowered : List Char} (h : Text.lowerCase cs = '%' :: '2' :: 'e' :: lowered) :
    ∃ rest, Text.lowerCase rest = lowered ∧ Percent.decode cs = FilePath.dot :: Percent.decode rest := by
  rcases List.map_eq_cons_iff.mp h with ⟨a, as, rfl, percent, h⟩
  rcases List.map_eq_cons_iff.mp h with ⟨b, bs, rfl, two, h⟩
  rcases List.map_eq_cons_iff.mp h with ⟨c, rest, rfl, letter, behind⟩
  obtain rfl := eq_of_toLower (by decide) (by decide) percent
  obtain rfl := eq_of_toLower (by decide) (by decide) two
  have value : Text.hexValue? c = some 14 := by
    by_cases low : c.toNat < 128
    · exact Text.ascii_induction (P := fun c => c.toLower = 'e' → Text.hexValue? c = some 14) (by decide)
        low letter
    · rw [Text.toLower_of_not_ascii low] at letter
      rw [letter]
      decide
  refine ⟨rest, behind, ?_⟩
  rw [Percent.decode, value]
  rfl

theorem decode_of_isDot (dot : s.isDot = true) : Percent.decode s = [FilePath.dot] := by
  simp only [Segment.isDot, List.contains_cons, List.contains_nil, Bool.or_false, Bool.or_eq_true,
    beq_iff_eq] at dot
  rcases dot with plain | escaped
  · rcases decode_of_lower_dot plain with ⟨rest, behind, decoded⟩
    rw [decoded, List.map_eq_nil_iff.mp behind]
    rfl
  · rcases decode_of_lower_escape escaped with ⟨rest, behind, decoded⟩
    rw [decoded, List.map_eq_nil_iff.mp behind]
    rfl

theorem decode_of_isDoubleDot (dots : s.isDoubleDot = true) : Percent.decode s = FilePath.above := by
  have last {rest : List Char} (dot : Segment.isDot rest = true) {cs : List Char}
      (decoded : Percent.decode cs = FilePath.dot :: Percent.decode rest) :
      Percent.decode cs = FilePath.above := by
    rw [decoded, decode_of_isDot dot]
    rfl
  simp only [Segment.isDoubleDot, List.contains_cons, List.contains_nil, Bool.or_false, Bool.or_eq_true,
    beq_iff_eq] at dots
  rcases dots with h | h | h | h
  · rcases decode_of_lower_dot h with ⟨rest, behind, decoded⟩
    exact last (by rw [Segment.isDot, behind]; decide) decoded
  · rcases decode_of_lower_escape h with ⟨rest, behind, decoded⟩
    exact last (by rw [Segment.isDot, behind]; decide) decoded
  · rcases decode_of_lower_dot h with ⟨rest, behind, decoded⟩
    exact last (by rw [Segment.isDot, behind]; decide) decoded
  · rcases decode_of_lower_escape h with ⟨rest, behind, decoded⟩
    exact last (by rw [Segment.isDot, behind]; decide) decoded

def segmentOf (name : List UInt8) : Segment := Percent.encodeBytes reservedInFileName name

theorem forall_mem_segmentOf {P : Char → Prop} (escapes : Escapes P)
    (all : ∀ n < 128, reservedInFileName (Char.ofNat n) = false → P (Char.ofNat n)) :
    ∀ c ∈ segmentOf name, P c :=
  Percent.forall_mem_encodeBytes escapes fun b _ low free => all b.toNat low free

theorem clean_segmentOf (name : List UInt8) : Clean reservedInPath (segmentOf name) :=
  forall_mem_segmentOf (P := fun c => c.toNat < 128 ∧ reservedInPath c = false) (by decide) (by decide)

theorem whole_segmentOf (name : List UInt8) : Text.Whole (isSlash .file) (segmentOf name) :=
  forall_mem_segmentOf (P := (isSlash .file · = false)) (by decide) (by decide)

theorem decode_segmentOf (name : List UInt8) : Percent.decode (segmentOf name) = name :=
  Percent.decode_encodeBytes (by decide) name

theorem segmentOf_ne_nil (some : name ≠ []) : segmentOf name ≠ [] := by
  intro none
  have decoded := decode_segmentOf name
  rw [none] at decoded
  exact some decoded.symm

theorem isDot_segmentOf (other : name ≠ [FilePath.dot]) : (segmentOf name).isDot = false := by
  rw [Bool.eq_false_iff]
  intro dot
  exact other ((decode_segmentOf name).symm.trans (decode_of_isDot dot))

theorem isDoubleDot_segmentOf (other : name ≠ FilePath.above) : (segmentOf name).isDoubleDot = false := by
  rw [Bool.eq_false_iff]
  intro dots
  exact other ((decode_segmentOf name).symm.trans (decode_of_isDoubleDot dots))

namespace FilePlace

theorem written_of_clean (clean : Clean reservedInPath cs) : written cs = cs := by
  have whole : unbroken cs = cs := unbroken_of_not_break fun c member =>
    isBreak_of_not_padding (not_padding_of_clean (by decide) clean c member)
  rw [written, whole, Percent.encode_of_clean clean]

theorem follow_of_dotless {raws : List Segment} (place : FilePlace) (some : place.segments ≠ [])
    (clean : ∀ raw ∈ raws, Clean reservedInPath raw)
    (dotless : ∀ raw ∈ raws, raw.isDot = false ∧ raw.isDoubleDot = false) :
    place.follow raws = ⟨place.segments ++ raws, place.namesDrive⟩ := by
  have entered {raw : Segment} (place : FilePlace) (some : place.segments ≠ [])
      (clean : Clean reservedInPath raw) : place.enter raw = ⟨place.segments ++ [raw], place.namesDrive⟩ := by
    rw [enter, if_neg (mt List.isEmpty_iff.mp some), down, written_of_clean clean]
  induction raws generalizing place with
  | nil => rw [follow, List.append_nil]
  | cons raw rest ih =>
    obtain ⟨here, clean⟩ := List.forall_mem_cons.mp clean
    obtain ⟨⟨named, below⟩, dotless⟩ := List.forall_mem_cons.mp dotless
    cases rest with
    | nil =>
      rw [follow, written_of_clean here, if_neg (Bool.eq_false_iff.mp below),
        if_neg (Bool.eq_false_iff.mp named), entered place some here]
    | cons next rest =>
      rw [follow, written_of_clean here, if_neg (Bool.eq_false_iff.mp below),
        if_neg (Bool.eq_false_iff.mp named), entered place some here, ih _ _ clean dotless]
      · exact congrArg (FilePlace.mk · _) (List.append_assoc _ _ _)
      · exact List.append_ne_nil_of_right_ne_nil _ (List.cons_ne_nil _ _)
      · exact List.cons_ne_nil _ _

theorem divide?_of_not_break (whole : ∀ c ∈ cs, isBreak c = false) : divide? cs = none := by
  unfold divide?
  split
  · rename_i letter behind front
    split
    · rename_i rest mark
      refine if_neg fun divides => ?_
      simp only [Bool.and_eq_true, Option.any_eq_true] at divides
      rcases divides with ⟨⟨-, c, first, breaks⟩, -⟩
      have within : c ∈ behind.dropWhile isBreak := mark ▸ List.mem_cons_of_mem _ (List.mem_of_head? first)
      have inside : c ∈ cs.dropWhile isBreak :=
        front ▸ List.mem_cons_of_mem _ ((List.dropWhile_suffix _).subset within)
      rw [whole c ((List.dropWhile_suffix _).subset inside)] at breaks
      cases breaks
    · rfl
  · rfl

section Following

variable {P : Segment → Prop} {raws : List Segment} {place : FilePlace} {raw : Segment}

theorem forall_mem_enter (drives : ∀ letter : Char, letter.isAlpha = true → P [letter, ':'])
    (before : ∀ s ∈ place.segments, P s) (clean : Clean reservedInPath raw) (along : P raw) :
    ∀ s ∈ (place.enter raw).segments, P s := by
  have undivided : divide? raw = none := divide?_of_not_break fun c member =>
    isBreak_of_not_padding (not_padding_of_clean (by decide) clean c member)
  unfold enter
  split
  · rw [begin, undivided]
    simp only [written_of_clean clean]
    split
    · rename_i drive
      unfold Segment.isDriveLetter at drive
      split at drive
      · refine List.forall_mem_singleton.mpr (drives _ ?_)
        exact (Bool.and_eq_true_iff.mp drive).1
      · cases drive
    · exact List.forall_mem_singleton.mpr along
  · rw [down, written_of_clean clean]
    exact List.forall_mem_append.mpr ⟨before, List.forall_mem_singleton.mpr along⟩

theorem forall_mem_follow (empty : P []) (drives : ∀ letter : Char, letter.isAlpha = true → P [letter, ':'])
    (before : ∀ s ∈ place.segments, P s) (clean : ∀ raw ∈ raws, Clean reservedInPath raw)
    (along : ∀ raw ∈ raws, raw.isDoubleDot = false → P raw) :
    ∀ s ∈ (place.follow raws).segments, P s := by
  have last {place : FilePlace} (before : ∀ s ∈ place.segments, P s) :
      ∀ s ∈ (place.down []).segments, P s :=
    List.forall_mem_append.mpr ⟨before, List.forall_mem_singleton.mpr empty⟩
  have above {place : FilePlace} (before : ∀ s ∈ place.segments, P s) : ∀ s ∈ place.up.segments, P s :=
    fun s member => before s (Segment.mem_of_mem_up member)
  have entered {place : FilePlace} {raw : Segment} (before : ∀ s ∈ place.segments, P s)
      (clean : Clean reservedInPath raw) (along : raw.isDoubleDot = false → P raw)
      (below : ¬ Segment.isDoubleDot (written raw) = true) : ∀ s ∈ (place.enter raw).segments, P s := by
    rw [written_of_clean clean] at below
    exact forall_mem_enter drives before clean (along (Bool.eq_false_iff.mpr below))
  fun_induction follow place raws with
  | case1 place => exact before
  | case2 place raw below => exact last (above before)
  | case3 place raw below dot => exact last before
  | case4 place raw below dot =>
    exact entered before (clean raw List.mem_cons_self) (along raw List.mem_cons_self) below
  | case5 place raw rest more below ih =>
    exact ih (above before) (List.forall_mem_cons.mp clean).2 (List.forall_mem_cons.mp along).2
  | case6 place raw rest more below dot ih =>
    exact ih before (List.forall_mem_cons.mp clean).2 (List.forall_mem_cons.mp along).2
  | case7 place raw rest more below dot ih =>
    obtain ⟨here, clean⟩ := List.forall_mem_cons.mp clean
    obtain ⟨now, along⟩ := List.forall_mem_cons.mp along
    exact ih (entered before here now below) clean along

theorem follow_ne_nil {raws : List (List Char)} (place : FilePlace) (some : raws ≠ []) :
    (place.follow raws).segments ≠ [] := by
  have entered (place : FilePlace) (raw : List Char) : (place.enter raw).segments ≠ [] := by
    unfold enter
    split
    · unfold begin
      split
      · exact List.cons_ne_nil _ _
      · simp only
        split <;> exact List.cons_ne_nil _ _
    · exact List.append_ne_nil_of_right_ne_nil _ (List.cons_ne_nil _ _)
  fun_induction follow place raws with
  | case1 => exact absurd rfl some
  | case2 | case3 => exact List.append_ne_nil_of_right_ne_nil _ (List.cons_ne_nil _ _)
  | case4 place raw => exact entered place raw
  | case5 _ _ _ more _ ih | case6 _ _ _ more _ _ ih | case7 _ _ _ more _ _ ih => exact ih more

end Following

end FilePlace

theorem dropEmptyFront_subset (segments : List Segment) : Segment.dropEmptyFront segments ⊆ segments := by
  fun_induction Segment.dropEmptyFront segments with
  | case1 next rest ih => exact fun s member => List.mem_cons_of_mem _ (ih member)
  | case2 => exact fun s member => member

theorem dropEmptyFront_ne_nil {segments : List Segment} (some : segments ≠ []) :
    Segment.dropEmptyFront segments ≠ [] := by
  fun_induction Segment.dropEmptyFront segments with
  | case1 next rest ih => exact ih (List.cons_ne_nil _ _)
  | case2 => exact some

def ofSegments (segments : List Segment) : Uri := ⟨"file", some .here, .rooted segments, none, none⟩

theorem fileUri_written (clean : ∀ piece ∈ s :: rest, Clean reservedInPath piece)
    (whole : ∀ piece ∈ s :: rest, Text.Whole (isSlash .file) piece) :
    fileUri .none [[]] (s ++ rest.flatMap ('/' :: ·)) =
      ofSegments (Segment.dropEmptyFront (FilePlace.follow ⟨[[]], false⟩ (s :: rest)).segments) := by
  obtain ⟨front, others⟩ := List.forall_mem_cons.mp whole
  have path := Text.span_append (fun c => !endsPath c) (s ++ rest.flatMap ('/' :: ·)) []
    (fun c member => by rw [endsPath_segments clean c member]; rfl) nofun
  have cut : Text.pieces (isSlash .file) (s ++ rest.flatMap ('/' :: ·)) = s :: rest :=
    Text.pieces_flatMap front others (by decide)
  rw [List.append_nil] at path
  rw [fileUri, path]
  simp only [cut, ite_self]
  rfl

theorem readFile_slashes [Idna] (cs : List Char) : readFile ('/' :: '/' :: '/' :: cs) = .ok (fileUri .none [[]] cs) :=
  rfl

theorem read_ofSegments [Idna] (clean : ∀ piece ∈ s :: rest, Clean reservedInPath piece)
    (whole : ∀ piece ∈ s :: rest, Text.Whole (isSlash .file) piece) :
    read (ofSegments (s :: rest)).text =
      .ok (ofSegments (Segment.dropEmptyFront (FilePlace.follow ⟨[[]], false⟩ (s :: rest)).segments)) := by
  have named : IsScheme "file" := ⟨by decide, List.all_eq_true.mp (by decide), by decide⟩
  have scheme : (ofSegments (s :: rest)).scheme = "file" := rfl
  have behind : (ofSegments (s :: rest)).behind = '/' :: '/' :: Segment.chars (s :: rest) := by
    rw [ofSegments, behind_served, partsChars, partChars, partChars, List.append_nil, List.append_nil]
    rfl
  have outside : ∀ c ∈ '/' :: '/' :: Segment.chars (s :: rest), isPadding c = false :=
    List.forall_mem_cons.mpr ⟨by decide, List.forall_mem_cons.mpr ⟨by decide, not_padding_segments clean⟩⟩
  have file : SchemeKind.ofScheme "file" = .file := by decide
  rw [text, chars_eq, scheme, behind, read_written named fun c last => outside c (List.mem_of_getLast? last),
    readWithScheme, file]
  exact (readFile_slashes _).trans (congrArg Except.ok (fileUri_written clean whole))

/-- The segments that lead through names. The root itself is one empty segment. -/
def segmentsOf (names : List (List UInt8)) : List Segment :=
  if names.isEmpty then [[]] else names.map segmentOf

theorem ofFilePath?_eq (absolute : p.isAbsolute = true) :
    ofFilePath? p = some (ofSegments (segmentsOf p.names)) := by
  rw [ofFilePath?, if_pos absolute]
  simp only [List.isEmpty_map]
  rfl

theorem forall_mem_segmentsOf {P : Segment → Prop} (empty : P []) (all : ∀ name ∈ names, P (segmentOf name)) :
    ∀ s ∈ segmentsOf names, P s := by
  unfold segmentsOf
  split
  · exact List.forall_mem_singleton.mpr empty
  · intro s member
    rcases List.mem_map.mp member with ⟨name, inside, rfl⟩
    exact all name inside

theorem segmentsOf_ne_nil (names : List (List UInt8)) : segmentsOf names ≠ [] := by
  cases names <;> exact List.cons_ne_nil _ _

theorem flatMap_segmentsOf (names : List (List UInt8)) :
    (segmentsOf names).flatMap (fun s => FilePath.separator :: Percent.decode s) =
      (FilePath.ofNames names).bytes := by
  unfold segmentsOf FilePath.ofNames
  split
  · rfl
  · rw [List.flatMap_map]
    exact congrArg (List.flatMap · names) (funext fun name => congrArg _ (decode_segmentOf name))

theorem followed_of_dotless (all : ∀ name ∈ names, FilePath.IsName name) (dotless : FilePath.above ∉ names) :
    Segment.dropEmptyFront (FilePlace.follow ⟨[[]], false⟩ (segmentsOf names)).segments =
      segmentsOf names := by
  have clean : ∀ s ∈ segmentsOf names, Clean reservedInPath s :=
    forall_mem_segmentsOf nofun fun name _ => clean_segmentOf name
  have plain : ∀ s ∈ segmentsOf names, s.isDot = false ∧ s.isDoubleDot = false := by
    refine forall_mem_segmentsOf (by decide) fun name member => ⟨isDot_segmentOf (all name member).goes, ?_⟩
    exact isDoubleDot_segmentOf fun same => dotless (same ▸ member)
  rw [FilePlace.follow_of_dotless _ (List.cons_ne_nil _ _) clean plain]
  cases names with
  | nil => rfl
  | cons name rest =>
    have some : segmentOf name ≠ [] := segmentOf_ne_nil (all name List.mem_cons_self).some
    have written : segmentsOf (name :: rest) = segmentOf name :: rest.map segmentOf := rfl
    rw [written, List.singleton_append, Segment.dropEmptyFront]
    cases front : segmentOf name with
    | nil => exact absurd front some
    | cons c more => rfl

theorem closeDrive_cases (bytes : List UInt8) :
    closeDrive bytes = bytes ∨ closeDrive bytes = bytes ++ [FilePath.separator] := by
  unfold closeDrive
  split
  · split
    · exact .inr rfl
    · exact .inl rfl
  · exact .inl rfl

theorem names_closeDrive (bytes : List UInt8) :
    FilePath.names ⟨closeDrive bytes⟩ = FilePath.names ⟨bytes⟩ := by
  rcases closeDrive_cases bytes with same | closed
  · rw [same]
  · rw [closed, FilePath.names_concat]

theorem isAbsolute_closeDrive {bytes : List UInt8} (absolute : FilePath.isAbsolute ⟨bytes⟩ = true) :
    FilePath.isAbsolute ⟨closeDrive bytes⟩ = true := by
  rcases closeDrive_cases bytes with same | closed
  · rw [same, absolute]
  · rw [closed]
    cases bytes with
    | nil => rfl
    | cons b rest => exact absolute

def endsLikeDrive (name : List UInt8) : Bool :=
  match name.reverse with
  | mark :: letter :: _ => isLetterByte letter && isDriveMark mark
  | _ => false

theorem closeDrive_ofNames (names : List (List UInt8)) :
    closeDrive (FilePath.ofNames names).bytes =
      if names.getLast?.any endsLikeDrive then (FilePath.ofNames names).bytes ++ [FilePath.separator]
      else (FilePath.ofNames names).bytes := by
  rcases List.eq_nil_or_concat names with rfl | ⟨front, last, rfl⟩
  · rfl
  · rw [List.concat_eq_append]
    have reversed : (FilePath.ofNames (front ++ [last])).bytes.reverse =
        last.reverse ++ FilePath.separator :: (front.flatMap (FilePath.separator :: ·)).reverse := by
      simp [FilePath.ofNames]
    rw [List.getLast?_concat, Option.any_some, closeDrive, reversed, endsLikeDrive]
    -- A separator in one of the two last places is no part of a drive.
    rcases last.reverse with _ | ⟨mark, _ | ⟨letter, more⟩⟩
    · rcases (front.flatMap (FilePath.separator :: ·)).reverse with _ | ⟨letter, _ | ⟨b, more⟩⟩
      · rfl
      · rfl
      · exact if_neg (by rw [show isDriveMark FilePath.separator = false by decide, Bool.and_false]; decide)
    · rcases (front.flatMap (FilePath.separator :: ·)).reverse with _ | ⟨b, more⟩
      · rfl
      · exact if_neg (by rw [show isLetterByte FilePath.separator = false by decide, Bool.false_and]; decide)
    · cases more <;> rfl

def Descends (s : Segment) : Prop :=
  Text.Whole (· == FilePath.separator) (Percent.decode s) ∧ Percent.decode s ≠ FilePath.above

instance (s : Segment) : Decidable (Descends s) := instDecidableAnd

theorem descends_drive {letter : Char} (alpha : letter.isAlpha = true) : Descends [letter, ':'] :=
  Text.ascii_induction (P := fun letter => letter.isAlpha = true → Descends [letter, ':']) (by decide)
    (Text.toNat_of_isAlpha alpha) alpha

theorem descends_segmentOf (is : FilePath.IsName name) (below : (segmentOf name).isDoubleDot = false) :
    Descends (segmentOf name) := by
  rw [Descends, decode_segmentOf]
  refine ⟨is.whole, ?_⟩
  rintro rfl
  exact absurd below (by decide)

theorem above_not_mem_names {segments : List Segment} (all : ∀ s ∈ segments, Descends s) :
    FilePath.above ∉ FilePath.names ⟨segments.flatMap fun s => FilePath.separator :: Percent.decode s⟩ := by
  have written : (segments.flatMap fun s => FilePath.separator :: Percent.decode s) =
      (segments.map Percent.decode).flatMap (FilePath.separator :: ·) := by
    rw [List.flatMap_map]
  rw [written, FilePath.names_flatMap]
  · intro member
    rcases List.mem_map.mp (List.mem_filter.mp member).1 with ⟨s, inside, same⟩
    exact (all s inside).2 same
  · intro name member
    rcases List.mem_map.mp member with ⟨s, inside, rfl⟩
    exact (all s inside).1

theorem isAbsolute_flatMap {segments : List Segment} (some : segments ≠ []) :
    FilePath.isAbsolute ⟨segments.flatMap fun s => FilePath.separator :: Percent.decode s⟩ = true := by
  cases segments with
  | nil => exact absurd rfl some
  | cons s rest => rfl

theorem isAbsolute_of_read [Idna] {text : String} {u : Uri} (found : read text = .ok u)
    (file : u.scheme = "file") (named : u.filePath? = some p) : p.isAbsolute = true := by
  rcases canonical_or_file found with canonical | ⟨host, place, path, rfl⟩
  · exact absurd file canonical.scheme_ne_file
  · unfold filePath? at named
    split at named
    · rename_i segments _ rooted
      cases named
      cases rooted
      refine isAbsolute_closeDrive (isAbsolute_flatMap (dropEmptyFront_ne_nil ?_))
      exact FilePlace.follow_ne_nil _ (Text.pieces_ne_nil _ _)
    · cases named

/-- The text of a file's URI is read as a path again, whose names are those of the file unless one of
them is two dots: none of these is left. -/
theorem exists_readback [Idna] (absolute : p.isAbsolute = true) :
    ∃ u v q, ofFilePath? p = some u ∧ read u.text = .ok v ∧ v.scheme = "file" ∧ v.filePath? = some q ∧
      q.isAbsolute = true ∧ FilePath.above ∉ q.names ∧
      (FilePath.above ∉ p.names → q = ⟨closeDrive (FilePath.ofNames p.names).bytes⟩) := by
  have all : ∀ name ∈ p.names, FilePath.IsName name := fun _ => FilePath.isName_of_mem_names
  have clean : ∀ s ∈ segmentsOf p.names, Clean reservedInPath s :=
    forall_mem_segmentsOf nofun fun name _ => clean_segmentOf name
  have whole : ∀ s ∈ segmentsOf p.names, Text.Whole (isSlash .file) s :=
    forall_mem_segmentsOf nofun fun name _ => whole_segmentOf name
  have along : ∀ s ∈ segmentsOf p.names, s.isDoubleDot = false → Descends s :=
    forall_mem_segmentsOf (fun _ => by decide) fun name member => descends_segmentOf (all name member)
  have some := segmentsOf_ne_nil p.names
  have found : read (ofSegments (segmentsOf p.names)).text =
      .ok (ofSegments (Segment.dropEmptyFront
        (FilePlace.follow ⟨[[]], false⟩ (segmentsOf p.names)).segments)) := by
    cases front : segmentsOf p.names with
    | nil => exact absurd front some
    | cons s rest => exact read_ofSegments (front ▸ clean) (front ▸ whole)
  refine ⟨_, _, _, ofFilePath?_eq absolute, found, rfl, rfl, ?_, ?_, ?_⟩
  · exact isAbsolute_closeDrive (isAbsolute_flatMap (dropEmptyFront_ne_nil (FilePlace.follow_ne_nil _ some)))
  · rw [names_closeDrive]
    refine above_not_mem_names fun s member => ?_
    exact FilePlace.forall_mem_follow (by decide) (fun _ => descends_drive)
      (List.forall_mem_singleton.mpr (by decide)) clean along s (dropEmptyFront_subset _ member)
  · intro dotless
    rw [followed_of_dotless all dotless, flatMap_segmentsOf]

end TaintScan.Uri
