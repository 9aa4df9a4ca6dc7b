import TaintScan.Proofs.Name.Clark
import TaintScan.Proofs.Schema.Check
import TaintScan.Proofs.Schema.Persistence

namespace TaintScan.Schema

open QualifiedName (plain inSpace ofClark Spelled)

variable {s : Schema} {q r : QualifiedName}

def qualifiedNames (s : Schema) : List QualifiedName :=
  s.functions.map FunctionDecl.name ++ s.parameters.map ParameterDecl.name

/-- The schema was read from a text, or built from its declarations. -/
def Accepted (s : Schema) : Prop :=
  (∃ text, ofJsonText text = .ok s) ∨ ∃ draft : Schema, draft.build = .ok s

theorem check_of_build {draft : Schema} (built : draft.build = .ok s) : s.check = .ok () := by
  unfold build at built
  split at built
  · cases built
  · rcases Outcome.map_eq_ok.mp built with ⟨⟨⟩, passed, rfl⟩
    exact passed

theorem accepted_iff : s.Accepted ↔ s.check = .ok () := by
  constructor
  · rintro (⟨text, read⟩ | ⟨draft, built⟩)
    · exact check_of_ofJsonText read
    · exact check_of_build built
  · intro checked
    refine .inl ⟨s.jsonText, ?_⟩
    rw [ofJsonText_eq, checked]
    rfl

/-- The schema with other names of functions and parameters. -/
def rename (f : QualifiedName → QualifiedName) (s : Schema) : Schema :=
  { s with
    functions := s.functions.map fun d => { d with name := f d.name }
    parameters := s.parameters.map fun d => { d with name := f d.name } }

theorem identities_rename (f : QualifiedName → QualifiedName) (s : Schema) :
    (s.rename f).identities = s.identities := by
  simp [identities, rename, Function.comp_def]

theorem wellFormed_rename (f : QualifiedName → QualifiedName) :
    (s.rename f).WellFormed ↔ s.WellFormed := by
  have same := identities_rename f s
  exact ⟨fun formed => ⟨same ▸ formed.distinct, formed.linked, formed.referenceNames, formed.attributeNames⟩,
    fun formed => ⟨same ▸ formed.distinct, formed.linked, formed.referenceNames, formed.attributeNames⟩⟩

theorem accepted_rename (f : QualifiedName → QualifiedName) : (s.rename f).Accepted ↔ s.Accepted := by
  rw [accepted_iff, accepted_iff, check_eq_ok, check_eq_ok, wellFormed_rename]

/-- A schema is accepted with any names in place of its own. A name of it is read back from its Clark
form exactly if it is spelled; so all names are exactly if all are spelled, and two different names
with one Clark form are never both spelled. -/
theorem names_read_back (s : Schema) :
    (∀ f, (s.rename f).Accepted ↔ s.Accepted) ∧
    (∀ q ∈ s.qualifiedNames, ofClark q.clark = .ok q ↔ q.Spelled) ∧
    ∀ q ∈ s.qualifiedNames, ∀ r ∈ s.qualifiedNames, q ≠ r → q.clark = r.clark →
      ¬ (q.Spelled ∧ r.Spelled) := by
  refine ⟨fun f => accepted_rename f, fun q _ => QualifiedName.ofClark_clark_iff, ?_⟩
  rintro q - r - differ same ⟨one, two⟩
  exact differ (one.clark_inj two same)

/-- Two functions with one Clark form, a third that is spelled, and a parameter whose namespace is
there but empty. -/
def crossedSchema : Schema where
  stylesheet := "item.xsl"
  version := 1
  elementTypes := [.empty ⟨⟨1⟩⟩ "item"]
  rootElements := [.exactlyOnce ⟨⟨2⟩⟩ "item" ⟨⟨1⟩⟩]
  functions := [⟨⟨⟨3⟩⟩, inSpace "a\x7db" "c", [], .one .string⟩,
    ⟨⟨⟨4⟩⟩, inSpace "a" "b\x7dc", [], .one .string⟩,
    ⟨⟨⟨5⟩⟩, inSpace "urn:ext" "title", [], .one .string⟩]
  parameters := [⟨⟨⟨6⟩⟩, inSpace "" "lang", .one .string⟩]

theorem crossedSchema_check : crossedSchema.check = .ok () := rfl

theorem names_read_back_crossed :
    (crossedSchema.rename fun q => plain (q.clark ++ ":")).Accepted ∧
      ofClark (inSpace "urn:ext" "title").clark = .ok (inSpace "urn:ext" "title") ∧
      ¬ ((inSpace "a\x7db" "c").Spelled ∧ (inSpace "a" "b\x7dc").Spelled) := by
  rcases names_read_back crossedSchema with ⟨renamed, spelled, crossing⟩
  have title : (inSpace "urn:ext" "title").Spelled := by
    refine ⟨by decide, ?_⟩
    rintro space same
    cases same
    exact ⟨by decide, by decide⟩
  exact ⟨(renamed _).mpr (accepted_iff.mpr crossedSchema_check),
    (spelled _ (by decide)).mpr title,
    crossing _ (by decide) _ (by decide) (by decide) (by decide)⟩

theorem names_not_always_read_back :
    ofJsonText crossedSchema.jsonText = .ok crossedSchema ∧ crossedSchema.build = .ok crossedSchema ∧
      inSpace "a\x7db" "c" ∈ crossedSchema.qualifiedNames ∧
      inSpace "a" "b\x7dc" ∈ crossedSchema.qualifiedNames ∧
      inSpace "a\x7db" "c" ≠ inSpace "a" "b\x7dc" ∧
      (inSpace "a\x7db" "c").clark = (inSpace "a" "b\x7dc").clark ∧
      ofClark (inSpace "a\x7db" "c").clark = .error (.invalidLocal "\x7ba\x7db\x7dc") ∧
      inSpace "" "lang" ∈ crossedSchema.qualifiedNames ∧
      ofClark (inSpace "" "lang").clark = .ok (plain "lang") := by
  have read : ofJsonText crossedSchema.jsonText = .ok crossedSchema := by
    rw [ofJsonText_eq, crossedSchema_check]
    rfl
  exact ⟨read, rfl, by decide, by decide, by decide, by decide, by decide, by decide, by decide⟩

end TaintScan.Schema
