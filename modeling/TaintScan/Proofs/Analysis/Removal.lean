import TaintScan.Proofs.Analysis.FirstMatch
import TaintScan.Proofs.Analysis.Verification
import TaintScan.Proofs.Document.SingleDifference
import TaintScan.Proofs.Output.Editing

namespace TaintScan.Engine

/-- An element stands where one is gone and has what a rule was to inject there. -/
inductive TakenFor (settings : AnalyzerSettings) (gone e : Element) : Rule → Prop
  | attributeName (new : gone.attr? settings.attackAttribute = none)
      (there : (e.attr? settings.attackAttribute).isSome = true) :
      TakenFor settings gone e .attributeName
  | elementName (named : e.isNamed settings.attackElement = true) :
      TakenFor settings gone e .elementName

section Removal

variable {settings : AnalyzerSettings} {o : Output} {schema : Schema} {ledger : Ledger}
  {marker : Marker} {d : Detection} {r : Rule} {s : Site} {v : Descriptor}

theorem confirmed_removed_iff [Uri.Idna]
    (makes : Context.Makes ⟨schema, ledger, marker, settings⟩ o r s v d)
    (injects : r = .attributeName ∨ r = .elementName) :
    (r.verify d.payload (o.remove d.payload.path)).isConfirmed = true ↔
      ∃ e, d.payload.path.next.resolve o = some e ∧ TakenFor settings s.element e r := by
  obtain ⟨site, -, -, -, -, rfl⟩ := makes
  -- The path of the detection leads to the element behind now.
  have leads := Output.resolve_of_mem_sites site
  rcases injects with rfl | rfl
  · rw [Rule.verify, Verification.newAttribute_iff]
    simp only [Context.detection, Rule.expectation, Output.resolve_remove leads,
      ← Element.attr?_eq_none_iff]
    exact exists_congr fun e => and_congr_right fun _ =>
      ⟨fun ⟨new, there⟩ => .attributeName new there, fun | .attributeName new there => ⟨new, there⟩⟩
  · rw [Rule.verify, Verification.renamed_iff]
    simp only [Context.detection, Rule.expectation, Output.resolve_remove leads]
    exact exists_congr fun e => and_congr_right fun _ =>
      ⟨fun named => .elementName named, fun | .elementName named => named⟩

/-- A dropped name is refuted unless the element behind the dropped one is taken for it. -/
theorem verify_removed [Uri.Idna] (detected : d ∈ (standard settings).analyze o schema ledger marker)
    (made : d.analyzerRule = r.id) (injects : r = .attributeName ∨ r = .elementName) :
    ∃ s ∈ o.sites, ∃ verification, s.path = d.payload.path ∧
      (standard settings).verify d (o.remove d.payload.path) = .ok verification ∧
      (verification.isConfirmed = true ↔
        ∃ e, d.payload.path.next.resolve o = some e ∧ TakenFor settings s.element e r) := by
  obtain ⟨r', s, v, makes⟩ := exists_makes detected
  have same : r' = r := by
    rw [← makes.made] at made
    exact Rule.id_injective made
  subst same
  refine ⟨s, makes.site, _, ?_, verify_standard made settings _, confirmed_removed_iff makes injects⟩
  rw [← makes.made]
  rfl

end Removal

section Siblings

open Document

def siblings (tag : String) : Output :=
  ⟨[.element "zqabcdef" .empty [], .element tag .empty []]⟩

def siblingsLedger : Ledger :=
  .ofList [⟨trialObject 2, trialRule 11, "zqabcdef", false, some "zqabcdef"⟩]

def siblingsDetection : Detection :=
  Context.detection ⟨trialSchema, siblingsLedger, trialMarker, .standard⟩ .elementName
    ⟨⟨[0]⟩, ⟨"zqabcdef", .empty, []⟩, .tag⟩
    ⟨trialObject 2, trialRule 11, "zqabcdef", false, some "zqabcdef"⟩

attribute [local instance] Uri.Idna.plain

theorem verify_removed_before_block :
    ∃ s ∈ (siblings "p").sites, ∃ verification, s.path = siblingsDetection.payload.path ∧
      (standard .standard).verify siblingsDetection
        ((siblings "p").remove siblingsDetection.payload.path) = .ok verification ∧
      (verification.isConfirmed = true ↔
        ∃ e, siblingsDetection.payload.path.next.resolve (siblings "p") = some e ∧
          TakenFor .standard s.element e .elementName) := by
  have detected : siblingsDetection ∈ (standard .standard).analyze (siblings "p") trialSchema
      siblingsLedger trialMarker := by decide +kernel
  exact verify_removed detected rfl (.inr rfl)

theorem removed_not_always_refuted :
    ¬ ∀ (settings : AnalyzerSettings) (o : Output) (schema : Schema) (ledger : Ledger)
      (marker : Marker), ∀ d ∈ (standard settings).analyze o schema ledger marker,
        d.analyzerRule = Rule.id .attributeName ∨ d.analyzerRule = Rule.id .elementName →
          ∃ reason, (standard settings).verify d (o.remove d.payload.path) =
            .ok (.refuted reason) := by
  intro refutes
  have detected : siblingsDetection ∈ (standard .standard).analyze (siblings "script") trialSchema
      siblingsLedger trialMarker := by decide +kernel
  have confirms : (standard .standard).verify siblingsDetection
      ((siblings "script").remove siblingsDetection.payload.path) =
        .ok (.confirmed "<script>") := by
    rw [verify_standard (show siblingsDetection.analyzerRule = Rule.id .elementName from rfl)]
    exact congrArg Except.ok (by decide +kernel)
  obtain ⟨reason, refuted⟩ := refutes _ _ _ _ _ _ detected (.inr rfl)
  rw [confirms] at refuted
  cases refuted

end Siblings

end TaintScan.Engine
