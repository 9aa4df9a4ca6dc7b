import TaintScan.Location
import TaintScan.Proofs.Outcome
import TaintScan.Proofs.Text.Utf8
import TaintScan.Proofs.Uri.File

namespace TaintScan.Location

variable {files : Files} {text : String} {p q : FilePath} {u : Uri}

/-- One path in any spelling, one URI or one text. -/
def Same : Location → Location → Prop
  | file p, file q => p.Same q
  | remote u, remote v => u = v
  | inline s, inline t => s = t
  | _, _ => False

instance : (l m : Location) → Decidable (Same l m)
  | file p, file q => inferInstanceAs (Decidable (p.Same q))
  | remote u, remote v => inferInstanceAs (Decidable (u = v))
  | inline s, inline t => inferInstanceAs (Decidable (s = t))
  | file _, remote _ | file _, inline _ | remote _, file _ | remote _, inline _ | inline _, file _
  | inline _, remote _ => .isFalse id

/-- The location is a URI with a host whose labels stand for names, or a path that does not go through
two dots from the root. -/
def LeadsBack : Location → Prop
  | file p => p.isAbsolute = true → FilePath.above ∉ p.names
  | remote u => u.Labelled
  | inline _ => False

instance : (l : Location) → Decidable l.LeadsBack
  | file p => inferInstanceAs (Decidable (p.isAbsolute = true → FilePath.above ∉ p.names))
  | remote u => inferInstanceAs (Decidable u.Labelled)
  | inline _ => .isFalse id

/-- The path from the root ends in a name that ends as a drive is written. -/
def OnDrive : Location → Prop
  | file p => p.isAbsolute = true ∧ p.names.getLast?.any Uri.endsLikeDrive = true
  | _ => False

instance : (l : Location) → Decidable l.OnDrive
  | file p => inferInstanceAs (Decidable (p.isAbsolute = true ∧ p.names.getLast?.any Uri.endsLikeDrive = true))
  | remote _ | inline _ => .isFalse id

theorem ofPlain_cases (files : Files) (text : String) :
    ofPlain files text = .file (.ofText text) ∨ ofPlain files text = .inline text := by
  unfold ofPlain
  split
  · exact .inl rfl
  · exact .inr rfl

theorem uri_relative (relative : FilePath.isAbsolute (.ofText text) = false) :
    uri (.file (.ofText text)) = text := by
  have unnamed : Uri.ofFilePath? (.ofText text) = none := if_neg (by rw [relative]; exact Bool.false_ne_true)
  rw [uri, unnamed]
  simp only [FilePath.text, FilePath.ofText, Text.ofBytes_toBytes, String.ofList_toList]

theorem load_file_eq_ok {limits : Limits} {content : String} :
    (file p).load limits files = .ok content ↔
      files p = .ok content ∧ bounded limits content = .ok content := by
  rw [load]
  split
  · rename_i found read
    rw [read]
    refine ⟨fun fits => ?_, fun ⟨same, fits⟩ => ?_⟩
    · rcases Outcome.map_eq_ok.mp fits with ⟨-, -, rfl⟩
      exact ⟨rfl, fits⟩
    · cases same
      exact fits
  · rename_i read
    rw [read]
    exact ⟨nofun, fun both => nomatch both.1⟩

section Reading

variable [Uri.Idna]

theorem ofText_of_read_elsewhere (files : Files) (read : Uri.read text = .ok u) (elsewhere : u.scheme ≠ "file")
    (long : 1 < u.scheme.length) : ofText files text = .remote u := by
  rw [ofText, read]
  simp only [if_neg elsewhere, if_pos long]

theorem ofText_of_read_file (files : Files) (read : Uri.read text = .ok u) (scheme : u.scheme = "file")
    (path : u.filePath? = some p) : ofText files text = .file p := by
  rw [ofText, read]
  simp only [if_pos scheme, path]

/-- A text names a URI of another scheme than that of files, a path from the root, or itself: as a
path or as a content. -/
theorem ofText_cases (files : Files) (text : String) :
    (∃ u, ofText files text = .remote u ∧ Uri.read text = .ok u ∧ u.scheme ≠ "file" ∧ 1 < u.scheme.length) ∨
      (∃ p, ofText files text = .file p ∧ p.isAbsolute = true) ∨
      ofText files text = .file (.ofText text) ∨ ofText files text = .inline text := by
  cases read : Uri.read text with
  | error fault =>
    rw [ofText, read]
    exact .inr (.inr (ofPlain_cases files text))
  | ok u =>
    by_cases file : u.scheme = "file"
    · cases path : u.filePath? with
      | some p =>
        exact .inr (.inl ⟨p, ofText_of_read_file files read file path, Uri.isAbsolute_of_read read file path⟩)
      | none =>
        have plain : ofText files text = ofPlain files text := by
          rw [ofText, read]
          simp only [if_pos file, path]
        rw [plain]
        exact .inr (.inr (ofPlain_cases files text))
    · by_cases long : 1 < u.scheme.length
      · exact .inl ⟨u, ofText_of_read_elsewhere files read file long, rfl, file, long⟩
      · have plain : ofText files text = ofPlain files text := by
          rw [ofText, read]
          simp only [if_neg file, if_neg long]
        rw [plain]
        exact .inr (.inr (ofPlain_cases files text))

theorem exists_ofText_uri (files : Files) (absolute : p.isAbsolute = true) :
    ∃ q, ofText files (uri (.file p)) = .file q ∧ q.isAbsolute = true ∧ FilePath.above ∉ q.names ∧
      (FilePath.above ∉ p.names → q = ⟨Uri.closeDrive (FilePath.ofNames p.names).bytes⟩) := by
  rcases Uri.exists_readback absolute with ⟨u, v, q, named, read, file, path, root, dotless, spelled⟩
  refine ⟨q, ?_, root, dotless, spelled⟩
  rw [uri, named]
  exact ofText_of_read_file files read file path

theorem ofText_label (files : Files) : (ofText files "inline:stylesheet").isRemote = true := by
  have read : Uri.read "inline:stylesheet" = .ok ⟨"inline", none, .plain "stylesheet".toList, none, none⟩ := rfl
  rw [ofText_of_read_elsewhere files read (by decide) (by decide)]
  rfl

theorem ofText_of_read_error (files : Files) {fault : Uri.Fault} (refused : Uri.read text = .error fault) :
    ofText files text = ofPlain files text := by rw [ofText, refused]

theorem canonical_of_ofText (known : ofText files text = .remote u) : u.Canonical := by
  rcases ofText_cases files text with ⟨v, found, read, elsewhere, -⟩ | ⟨p, found, -⟩ | found | found
  all_goals
    rw [known] at found
    cases found
  exact Uri.canonical_of_read read elsewhere

theorem same_ofText_text_iff (files : Files) (canonical : u.Canonical) (elsewhere : u.scheme ≠ "file")
    (long : 1 < u.scheme.length) : (ofText files u.text).Same (.remote u) ↔ u.Labelled := by
  have again := canonical.read_text
  by_cases labelled : u.Labelled
  · rw [if_pos labelled] at again
    rw [ofText_of_read_elsewhere files again elsewhere long]
    exact iff_of_true rfl labelled
  · rw [if_neg labelled] at again
    rw [ofText_of_read_error files again]
    refine iff_of_false ?_ labelled
    rcases ofPlain_cases files u.text with plain | plain
    all_goals
      rw [plain]
      exact id

theorem same_ofText_uri_iff (files : Files) (text : String) :
    (ofText files (ofText files text).uri).Same (ofText files text) ↔ (ofText files text).LeadsBack := by
  have path {p : FilePath} (absolute : p.isAbsolute = true) :
      (ofText files (uri (.file p))).Same (.file p) ↔ LeadsBack (.file p) := by
    rcases exists_ofText_uri files absolute with ⟨q, again, root, dotless, spelled⟩
    rw [again]
    refine ⟨fun same _ => same.names ▸ dotless, fun leads => ?_⟩
    refine FilePath.same_of_absolute root absolute ?_
    rw [spelled (leads absolute), Uri.names_closeDrive]
    exact FilePath.names_ofNames fun _ => FilePath.isName_of_mem_names
  rcases ofText_cases files text with ⟨u, known, read, elsewhere, long⟩ | ⟨p, known, absolute⟩ | known | known
  · rw [known, uri]
    exact same_ofText_text_iff files (Uri.canonical_of_read read elsewhere) elsewhere long
  · rw [known]
    exact path absolute
  · rw [known]
    cases absolute : FilePath.isAbsolute (.ofText text) with
    | true => exact path absolute
    | false =>
      rw [uri_relative absolute, known]
      exact ⟨fun _ root => absurd root (by rw [absolute]; decide), fun _ => FilePath.Same.refl _⟩
  · have label := ofText_label files
    rw [known, uri]
    cases named : ofText files "inline:stylesheet" with
    | remote u => exact ⟨False.elim, False.elim⟩
    | file p =>
      rw [named] at label
      cases label
    | inline content =>
      rw [named] at label
      cases label

section Loading

variable {tree : FileTree} {limits : Limits} {content : String}

theorem load_ofText_uri_iff (leads : (ofText tree.files text).LeadsBack)
    (loaded : (ofText tree.files text).load limits tree.files = .ok content) :
    (ofText tree.files (ofText tree.files text).uri).load limits tree.files = .ok content ↔
      ¬ (ofText tree.files text).OnDrive := by
  have path {p : FilePath} (absolute : p.isAbsolute = true) (leads : LeadsBack (.file p))
      (loaded : (file p).load limits tree.files = .ok content) :
      (ofText tree.files (uri (.file p))).load limits tree.files = .ok content ↔ ¬ OnDrive (.file p) := by
    rcases exists_ofText_uri tree.files absolute with ⟨q, again, -, -, spelled⟩
    rw [load_file_eq_ok, FileTree.files_eq_ok] at loaded
    rw [again, load_file_eq_ok, FileTree.files_eq_ok, spelled (leads absolute), Uri.closeDrive_ofNames]
    split
    · rename_i drive
      exact ⟨fun found => absurd found.1 FileTree.find_slash, fun free => absurd ⟨absolute, drive⟩ free⟩
    · rename_i free
      exact ⟨fun _ drive => free drive.2, fun _ => ⟨FileTree.find_ofNames absolute loaded.1, loaded.2⟩⟩
  rcases ofText_cases tree.files text with ⟨u, known, -⟩ | ⟨p, known, absolute⟩ | known | known
  · rw [known] at loaded
    cases loaded
  · rw [known] at leads loaded ⊢
    exact path absolute leads loaded
  · rw [known] at leads loaded ⊢
    cases absolute : FilePath.isAbsolute (.ofText text) with
    | true => exact path absolute leads loaded
    | false =>
      rw [uri_relative absolute, known]
      exact ⟨fun _ drive => Bool.false_ne_true (absolute.symm.trans drive.1), fun _ => loaded⟩
  · rw [known] at leads
    cases leads

end Loading

/-- The URI of a location is read as that location exactly if it leads back, as a URI does unless its
host was written with letters beyond ASCII. Then what was loaded is loaded again, unless the file is
named as a drive is written: its path comes back with a slash behind. -/
theorem identified_by_uri (files : Files) (text : String) :
    ((ofText files (ofText files text).uri).Same (ofText files text) ↔ (ofText files text).LeadsBack) ∧
      (∀ u, ofText files text = .remote u → ¬ (ofText files text).LeadsBack →
        ∃ a ascii, u.authority = some a ∧ a.host = .name ascii ∧ Uri.Idna.Writes ascii) ∧
      ∀ (tree : FileTree) (limits : Limits) (content : String), files = tree.files →
        (ofText files text).LeadsBack → (ofText files text).load limits files = .ok content →
        ((ofText files (ofText files text).uri).load limits files = .ok content ↔
          ¬ (ofText files text).OnDrive) := by
  refine ⟨same_ofText_uri_iff files text, fun u known astray => ?_, ?_⟩
  · rw [known] at astray
    exact (canonical_of_ofText known).labelled_or_writes.resolve_left astray
  · rintro tree limits content rfl leads loaded
    exact load_ofText_uri_iff leads loaded

end Reading

section Trial

local instance joinedLetters : Uri.Idna where
  toAscii? name := if name = "ﬁles.example".toList then some "files.example".toList else none
  allowed {name ascii} known := by
    obtain ⟨-, same⟩ := Option.ite_none_right_eq_some.mp known
    have all : ("files.example".toList.all fun c => !Uri.Host.isForbiddenInDomain c) = true := by decide
    cases same
    exact fun c member => by simpa using List.all_eq_true.mp all c member
  lowered {name ascii} known := by
    obtain ⟨-, same⟩ := Option.ite_none_right_eq_some.mp known
    cases same
    rfl

/-- Two files of one name, in the root and in a directory that is named as a drive is written. -/
def twoFiles : FileTree :=
  ((FileTree.bare.addDirectory (.ofText "/c:")).write (.ofText "/b%2F.xsl") "<a/>").write
    (.ofText "/c:/b%2F.xsl") "<b/>"

def joinedUri : Uri :=
  ⟨"http", some ⟨.nobody, .name "files.example".toList, none⟩, .rooted ["a.xsl".toList], none, none⟩

theorem read_joined : Uri.read "http://ﬁles.example/a.xsl" = .ok joinedUri := by decide +kernel

theorem identified_by_uri_spelled :
    ofText twoFiles.files "//./c:/./b%2F.xsl" = .file (.ofText "//./c:/./b%2F.xsl") ∧
      (ofText twoFiles.files (ofText twoFiles.files "//./c:/./b%2F.xsl").uri).Same
        (ofText twoFiles.files "//./c:/./b%2F.xsl") ∧
      (ofText twoFiles.files "//./c:/./b%2F.xsl").load .standard twoFiles.files = .ok "<b/>" ∧
      (ofText twoFiles.files (ofText twoFiles.files "//./c:/./b%2F.xsl").uri).load .standard
        twoFiles.files = .ok "<b/>" ∧
      ofText twoFiles.files "http://ﬁles.example/a.xsl" = .remote joinedUri ∧
      (ofText twoFiles.files (ofText twoFiles.files "http://ﬁles.example/a.xsl").uri).Same
        (ofText twoFiles.files "http://ﬁles.example/a.xsl") := by
  have leads : (ofText twoFiles.files "//./c:/./b%2F.xsl").LeadsBack := by decide
  have loaded : (ofText twoFiles.files "//./c:/./b%2F.xsl").load .standard twoFiles.files = .ok "<b/>" := by
    rfl
  have identified := identified_by_uri twoFiles.files "//./c:/./b%2F.xsl"
  have remote := ofText_of_read_elsewhere twoFiles.files read_joined (by decide) (by decide)
  have labelled : (ofText twoFiles.files "http://ﬁles.example/a.xsl").LeadsBack := by
    rw [remote]
    intro a same
    cases same
    exact fun _ => Uri.Label.areValid_of_no_mark (by decide)
  exact ⟨by decide, identified.1.mpr leads, loaded,
    (identified.2.2 twoFiles .standard "<b/>" rfl leads loaded).mpr (by decide), remote,
    (identified_by_uri twoFiles.files "http://ﬁles.example/a.xsl").1.mpr labelled⟩

theorem dots_identify_another :
    ofText twoFiles.files "/c:/../b%2F.xsl" = .file (.ofText "/c:/../b%2F.xsl") ∧
      ¬ (ofText twoFiles.files (ofText twoFiles.files "/c:/../b%2F.xsl").uri).Same
        (ofText twoFiles.files "/c:/../b%2F.xsl") ∧
      (ofText twoFiles.files "/c:/../b%2F.xsl").load .standard twoFiles.files = .ok "<a/>" ∧
      (ofText twoFiles.files (ofText twoFiles.files "/c:/../b%2F.xsl").uri).load .standard
        twoFiles.files = .ok "<b/>" :=
  ⟨by decide, by decide, rfl, rfl⟩

end Trial

end TaintScan.Location
