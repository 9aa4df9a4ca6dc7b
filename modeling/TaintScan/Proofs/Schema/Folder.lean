import TaintScan.Proofs.FilePath
import TaintScan.Proofs.Outcome
import TaintScan.Proofs.Schema.Persistence
import TaintScan.Proofs.Text.Number
import TaintScan.Schema.Repository

namespace TaintScan

namespace Schema

structure Answers (s : Schema) (key : SchemaKey) : Prop where
  checked : s.check = .ok ()
  named : s.key = key

end Schema

theorem Location.load_written {limits : Limits} {text : String}
    (small : text.utf8ByteSize ≤ limits.maxDocumentSize.toNat) (files : Files) (path : FilePath) :
    (file path).load limits (files.write path text) = .ok text := by
  simp only [load, Files.write_same, bounded, Limits.checkDocumentSize,
    if_neg (Nat.not_lt.mpr small)]
  rfl

theorem SchemaFolder.load_written {folder : SchemaFolder} {s : Schema} (checked : s.check = .ok ())
    (small : s.jsonText.utf8ByteSize ≤ folder.limits.maxDocumentSize.toNat) (files : Files) :
    folder.load (files.write (folder.fileOf s.key) s.jsonText) s.key = .ok s := by
  have text := Location.load_written small files (folder.fileOf s.key)
  have read : Schema.ofJsonText s.jsonText = .ok s := by
    rw [Schema.ofJsonText_eq, checked]
    rfl
  apply Outcome.bind_eq_ok.mpr
  exact ⟨_, text, Outcome.bind_eq_ok.mpr ⟨s, read, if_pos rfl⟩⟩

theorem SchemaFolder.answers_of_load {folder : SchemaFolder} {files : Files} {key : SchemaKey}
    {s : Schema} (found : folder.load files key = .ok s) : s.Answers key := by
  simp only [load, Outcome.bind_eq_ok] at found
  rcases found with ⟨text, -, schema, read, done⟩
  split at done
  · rename_i named
    cases done
    exact ⟨Schema.check_of_ofJsonText read, named⟩
  · cases done

namespace SchemaFolder

variable {uri : String} {key : SchemaKey}

theorem stem_cases (uri : String) : stem uri = "stylesheet".toList ∨
    (stem uri ≠ [] ∧ stem uri = (lastPart uri.toList).takeWhile (· != '.')) := by
  simp only [stem]
  split
  · exact .inl rfl
  · rename_i some
    exact .inr ⟨mt List.isEmpty_iff.mpr some, rfl⟩

theorem stem_ne_nil (uri : String) : stem uri ≠ [] := by
  rcases stem_cases uri with same | ⟨some, -⟩
  · rw [same]
    decide
  · exact some

theorem ne_slash_of_mem_lastPart {cs : List Char} : ∀ c ∈ lastPart cs, c ≠ '/' ∧ c ≠ '\\' := by
  intro c member
  unfold lastPart at member
  cases last : (Text.pieces (fun c => c == '/' || c == '\\')
      (cs.reverse.dropWhile (· == '/')).reverse).getLast? with
  | none => simp [last] at member
  | some piece =>
    have whole := Text.not_separates_of_mem_pieces piece (List.mem_of_getLast? last)
    have inside : c ∈ piece := by simpa [last] using member
    simpa using whole c inside

theorem ne_of_mem_stem : ∀ c ∈ stem uri, c ≠ '/' ∧ c ≠ '\\' ∧ c ≠ '.' := by
  intro c member
  rcases stem_cases uri with same | ⟨-, same⟩
  · have plain : "stylesheet".toList.all fun c => c != '/' && c != '\\' && c != '.' := by decide
    rw [same] at member
    simpa [and_assoc] using List.all_eq_true.mp plain c member
  · rw [same] at member
    rcases ne_slash_of_mem_lastPart c ((List.takeWhile_sublist _).subset member) with ⟨slash, backslash⟩
    have undotted := List.mem_takeWhile_imp member
    exact ⟨slash, backslash, bne_iff_ne.mp undotted⟩

theorem toList_fileName (key : SchemaKey) : (fileName key).toList =
    stem key.stylesheet ++ "-v".toList ++ Text.natural key.version.toNat ++ ".json".toList := by
  simp [fileName, numberText]

theorem unbroken_fileName (key : SchemaKey) : '/' ∉ (fileName key).toList := by
  rw [toList_fileName]
  simp only [List.mem_append, not_or]
  refine ⟨⟨⟨fun member => (ne_of_mem_stem _ member).1 rfl, by decide⟩, fun member => ?_⟩, by decide⟩
  exact Text.ne_of_isDigit (Text.isDigit_of_mem_natural _ member) (by decide) rfl

def fileBytes (key : SchemaKey) : List UInt8 := Text.toBytes (fileName key).toList

theorem hyphen_mem_fileBytes (key : SchemaKey) : 0x2D ∈ fileBytes key := by
  have inside : '-' ∈ (fileName key).toList := by
    rw [toList_fileName]
    simp
  exact List.mem_flatMap.mpr ⟨'-', inside, by decide⟩

theorem fileBytes_ne {name : List UInt8} (unhyphened : 0x2D ∉ name) : fileBytes key ≠ name := by
  rintro rfl
  exact unhyphened (hyphen_mem_fileBytes key)

theorem fileBytes_isName (key : SchemaKey) : FilePath.IsName (fileBytes key) where
  whole := FilePath.whole_toBytes (unbroken_fileName key)
  some := List.ne_nil_of_mem (hyphen_mem_fileBytes key)
  goes := fileBytes_ne (by decide)

theorem fileBytes_ne_above (key : SchemaKey) : fileBytes key ≠ FilePath.above :=
  fileBytes_ne (by decide)

/-- The name of a file is a stem without slashes, backslashes and dots, then the version and the
extension; so the file is a child of the directory, and what is read there, in any tree of files, stands
in the directory. A schema is loaded only if it passes the check and has the stylesheet and the version
that were asked for. A checked schema, stored under its own name, is loaded again. -/
theorem load_stays_in_folder (folder : SchemaFolder) (key : SchemaKey) :
    (∃ stem : List Char, stem ≠ [] ∧ (∀ c ∈ stem, c ≠ '/' ∧ c ≠ '\\' ∧ c ≠ '.') ∧
      fileName key = String.ofList stem ++ "-v" ++ numberText key.version.toNat ++ ".json" ∧
      (folder.fileOf key).IsChild folder.directory (fileBytes key)) ∧
    (∀ (tree : FileTree) (here : Place) (content : String), tree.LeadsTo folder.directory here →
      tree.files (folder.fileOf key) = .ok content →
      tree.texts.lookup (here ++ [fileBytes key]) = some content) ∧
    (∀ (files : Files) (s : Schema), folder.load files key = .ok s →
      s.check = .ok () ∧ s.stylesheet = key.stylesheet ∧ s.version = key.version) ∧
    ∀ (files : Files) (s : Schema), s.key = key → s.check = .ok () →
      s.jsonText.utf8ByteSize ≤ folder.limits.maxDocumentSize.toNat →
      folder.load (files.write (folder.fileOf key) s.jsonText) key = .ok s := by
  have unbroken := unbroken_fileName key
  refine ⟨⟨stem key.stylesheet, stem_ne_nil _, ne_of_mem_stem, rfl,
    FilePath.isChild_child _ unbroken (fileBytes_isName key)⟩, ?_, ?_, ?_⟩
  · intro tree here content leads read
    exact FileTree.lookup_child leads unbroken (fileBytes_isName key) (fileBytes_ne_above key) read
  · intro files s found
    rcases answers_of_load found with ⟨checked, rfl⟩
    exact ⟨checked, rfl, rfl⟩
  · rintro files s rfl checked small
    exact load_written checked small files

section Trial

def dottedFolder : SchemaFolder := ⟨.ofText "/srv//schemas/", .standard⟩

def dottedKey : SchemaKey := ⟨"urn:x/..\\passwd.xsl.bak//", 7⟩

def dottedSchema : Schema :=
  let type := ElementType.empty ⟨⟨1⟩⟩ "item"
  ⟨dottedKey.stylesheet, 7, [type], [type.reference ⟨⟨2⟩⟩ "item"], [], []⟩

def dottedTree : FileTree :=
  ((FileTree.bare.addDirectory (.ofText "/srv")).addDirectory (.ofText "/srv/schemas")).write
    (.ofText "/srv/schemas/passwd-v7.json") "[]"

theorem load_stays_in_folder_dotted :
    fileName dottedKey = "passwd-v7.json" ∧
      dottedTree.texts.lookup ([Text.toBytes "srv".toList, Text.toBytes "schemas".toList] ++
        [fileBytes dottedKey]) = some "[]" ∧
      dottedFolder.load (Files.empty.write (dottedFolder.fileOf dottedKey) dottedSchema.jsonText)
        dottedKey = .ok dottedSchema ∧
      dottedSchema.check = .ok () ∧ dottedSchema.stylesheet = dottedKey.stylesheet ∧
      dottedSchema.version = dottedKey.version := by
  rcases load_stays_in_folder dottedFolder dottedKey with ⟨-, confined, own, stored⟩
  have small : Text.byteCount (dottedSchema.toJson.indented 0) ≤
      dottedFolder.limits.maxDocumentSize.toNat := by decide +kernel
  rw [Text.byteCount_eq] at small
  have loaded := stored .empty dottedSchema rfl rfl small
  exact ⟨by decide, confined dottedTree _ "[]" (by decide) (by decide), loaded, own _ _ loaded⟩

end Trial

end SchemaFolder

end TaintScan
