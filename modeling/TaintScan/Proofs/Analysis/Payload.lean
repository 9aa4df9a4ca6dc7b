import TaintScan.Candidate.Basic
import TaintScan.Proofs.Analysis.Echo
import TaintScan.Proofs.Document.Completeness
import TaintScan.Proofs.Plan.Editing
import TaintScan.Proofs.Schema.Constraint
import TaintScan.Proofs.Taint.Tracking

namespace TaintScan

namespace Engine

open Synthesis (Plain)

/-- What a marker that is injected has to be: a name and a host label, told from the names of the
stylesheet by its stem. -/
structure Injected (marker : Marker) (injected : String) : Prop where
  safe : Name.isMarkerSafe injected.toList = true
  name : Name.isUncoloned injected.toList = true
  stem : marker.stem.toList <+: injected.toList

theorem injectedMarker_injected (ctx : Context) (r : Rule) (v : Descriptor) :
    Injected ctx.marker (ctx.injectedMarker r v) := by
  have stands : ctx.marker.stem.toList <+: (ctx.injectedMarker r v).toList := by
    rw [Context.injectedMarker, Text.toList_append_append]
    exact List.prefix_append _ _
  have safe := Name.isMarkerSafe_of_prefix ctx.marker.safe stands (isMarkerChar_of_mem_injected ctx r v)
  exact ⟨safe, Name.isUncoloned_of_isMarkerSafe safe, stands⟩

theorem plain_of_solid {name : List Char} (solid : Name.Solid name) : Plain name := by
  refine ⟨solid.nonempty, fun c member => ⟨?_, ?_⟩⟩
  · exact Name.ne_of_isNameChar (solid.chars c member) (by decide)
  · exact Name.ne_of_isNameChar (solid.chars c member) (by decide)

instance (text : List Char) : Decidable (Plain text) :=
  decidable_of_iff (text ≠ [] ∧ text.all (fun c => c != '<' && c != '&') = true)
    (by simp [Plain, List.all_eq_true])

theorem isFragment_of_plain {text : String} (plain : Plain text.toList) :
    Markup.isFragment text = true := by
  have balanced := Markup.isFragment_of_balances
    (Markup.balances_closing.text (by decide) plain.1 plain.2)
  rwa [String.ofList_toList] at balanced

theorem plain_around {front marker back : String} (before : Plain front.toList)
    (name : Plain marker.toList) (behind : Plain back.toList) :
    Plain (front ++ marker ++ back).toList := by
  rw [String.toList_append, String.toList_append]
  exact (before.append name).append behind

theorem isFragment_around {front marker back : String} (name : Plain marker.toList)
    (before : Plain front.toList) (behind : Plain back.toList) :
    Markup.isFragment (front ++ marker ++ back) = true :=
  isFragment_of_plain (plain_around before name behind)

theorem isFragment_element {marker : String} (safe : Name.isMarkerSafe marker.toList = true) :
    Markup.isFragment ("<" ++ marker ++ "></" ++ marker ++ ">") = true := by
  have closed := Markup.balances_closing.close safe
  have balanced := @Markup.isFragment_of_balances
    ('<' :: (marker.toList ++ '>' :: '<' :: '/' :: (marker.toList ++ ['>'])))
    (by simpa using closed.start safe)
  have written : String.ofList ('<' :: (marker.toList ++ '>' :: '<' :: '/' :: (marker.toList ++ ['>']))) =
      "<" ++ marker ++ "></" ++ marker ++ ">" := by
    rw [← String.toList_inj]
    simp
  rwa [written] at balanced

variable {settings : AnalyzerSettings}

theorem isFragment_replacement
    (attributeName : Name.isUncoloned settings.attackAttribute.toList = true)
    (elementName : Name.isUncoloned settings.attackElement.toList = true) {marker : String}
    (safe : Name.isMarkerSafe marker.toList = true) (r : Rule) :
    Markup.isFragment (r.replacement marker settings) = true := by
  have name : Plain marker.toList := plain_of_solid (Name.solid_of_isMarkerSafe safe)
  cases r with
  | attributeName => exact isFragment_of_plain (plain_of_solid (Name.solid_of_isUncoloned attributeName))
  | elementName => exact isFragment_of_plain (plain_of_solid (Name.solid_of_isUncoloned elementName))
  | unescapedText => exact isFragment_element safe
  | eventHandler => exact isFragment_around name (by decide) (by decide)
  | scriptBlock => exact isFragment_around name (by decide) (by decide)
  | styleAttribute => exact isFragment_around name (by decide) (by decide)
  | styleBlock =>
    have front : Plain ("\x7d" ++ marker ++ "\x7bbackground:url(").toList :=
      plain_around (by decide) name (by decide)
    exact isFragment_around name front (by decide)
  | stylesheetLink => exact isFragment_around name (by decide) (by decide)
  | urlAttribute => exact isFragment_around name (by decide) (by decide)

end Engine

structure DataConstraint.Unconstrained (c : DataConstraint) : Prop where
  type : c.dataType = .string
  unbounded : c.maxLength = none
  free : c.hasFixedSet = false

/-- The values of an object are unconstrained strings. -/
def Schema.TakesAnyText (schema : Schema) (id : ObjectId) : Prop :=
  ∃ object c, schema.object id = .ok object ∧ object.valueConstraint? = some c ∧ c.Unconstrained

theorem Schema.takesAnyText_of_mixed {schema : Schema} {id : ObjectId} {t : ElementType}
    (known : schema.object id = .ok (.elementType t)) (mixed : t.contentType = .mixed) :
    schema.TakesAnyText id := by
  refine ⟨.elementType t, .anyText, known, ?_, rfl, rfl, rfl⟩
  rw [SchemaObject.valueConstraint?, mixed]

namespace Synthesis

variable {ctx : Context} {r : ValueRule} {value : String}

theorem describe_pinned_of_fragment (free : ctx.schema.TakesAnyText r.target)
    (fragment : Markup.isFragment value = true) :
    describe ctx (r.pinned value) = .ok (descriptorOf ctx r value true) := by
  rcases free with ⟨object, c, known, constraint, type, unbounded, free⟩
  have accepted : acceptsValue c (r.pinned value).mode value = true := by
    refine acceptsValue_iff.mpr ⟨(DataConstraint.accepts_text_iff (.inl type)).mpr ?_, fun _ => fragment⟩
    simp [unbounded, free]
  have usable : usableRequest? c (r.pinned value) = some value :=
    Option.filter_eq_some_iff.mpr ⟨rfl, accepted⟩
  refine describe_eq_ok.mpr ⟨object, c, known, constraint, ?_⟩
  rw [describeUnder, usable]
  rfl

end Synthesis

open Synthesis (Context describe describe_provenance)

theorem Described.filter_rule {ctx : Context} {earlier later : List ValueRule} {r : ValueRule}
    {ds : List Descriptor} {d : Descriptor} (h : Described ctx (earlier ++ r :: later) ds)
    (others : ∀ q ∈ earlier ++ later, q.id ≠ r.id) (made : describe ctx r = .ok d) :
    ds.filter (fun e => e.rule = r.id) = [d] := by
  rcases h.split with ⟨front, d', back, rfl, before, made', behind⟩
  obtain rfl := Outcome.unique made made'
  have elsewhere {es : List Descriptor} {rules : List ValueRule} (each : Described ctx rules es)
      (other : ∀ q ∈ rules, q.id ≠ r.id) : es.filter (fun e => e.rule = r.id) = [] := by
    refine List.filter_eq_nil_iff.mpr fun e member => ?_
    rcases each.origin member with ⟨q, listed, described⟩
    have own := (describe_provenance described).1
    simpa [own] using other q listed
  have here : d.rule = r.id := (describe_provenance made).1
  rw [List.filter_append, elsewhere before fun q member => others q (List.mem_append_left _ member),
    List.nil_append, List.filter_cons_of_pos (by simpa using here),
    elsewhere behind fun q member => others q (List.mem_append_right _ member)]

/-- Each document of a plan records the replacement of a detection as it is, and as requested, and
nothing else for its rule. -/
def Detection.RecordedIn (d : Detection) (schema : Schema) (plan : Plan) : Prop :=
  ∀ marker settings limits doc, Document.render schema marker settings limits plan = .ok doc →
    doc.ledger.toList.filter (fun e => e.rule = d.rule) =
      [⟨d.payload.object, d.rule, d.payload.replacement, true, marker.tokenIn d.payload.replacement⟩]

namespace Detection

variable {d : Detection} {schema : Schema} {plan confirmation : Plan}

theorem recordedIn_of_apply (distinct : (plan.valueRules.map ValueRule.id).Nodup)
    (free : schema.TakesAnyText d.payload.object)
    (fragment : Markup.isFragment d.payload.replacement = true)
    (applied : d.apply plan = .ok confirmation) : d.RecordedIn schema confirmation := by
  intro marker settings limits doc rendered
  rcases Plan.modify_eq_ok_iff.mp applied with ⟨⟨last, ⟨_, _, whole, id, _⟩, target⟩, edits⟩
  rcases edits.rules with ⟨earlier, rule, later, split⟩
  have listed : rule ∈ plan.valueRules := by rw [split.before]; simp
  have same : rule = last :=
    List.inj_on_of_nodup_map distinct listed (by rw [whole]; simp) (split.same.trans id.symm)
  have aimed : rule.target = d.payload.object := same ▸ target
  have others : ∀ q ∈ earlier ++ later, q.id ≠ rule.id := by
    rw [split.before, List.map_append, List.map_cons, List.nodup_middle, List.nodup_cons,
      ← List.map_append] at distinct
    intro q member again
    exact distinct.1 (again ▸ List.mem_map_of_mem member)
  have described := Document.render_described rendered
  rw [split.after] at described
  have made := @Synthesis.describe_pinned_of_fragment
    (Document.contextOf schema marker settings confirmation) rule _ (aimed ▸ free) fragment
  have recorded := described.filter_rule others made
  rw [show (rule.pinned d.payload.replacement).id = d.rule from split.same] at recorded
  rw [recorded, Synthesis.descriptorOf, aimed, split.same]
  rfl

theorem exists_apply_iff (distinct : (plan.valueRules.map ValueRule.id).Nodup) :
    (∃ confirmation, d.apply plan = .ok confirmation) ↔
      ∃ rule ∈ plan.valueRules, rule.id = d.rule ∧ rule.target = d.payload.object := by
  constructor
  · rintro ⟨confirmation, applied⟩
    rcases Plan.modify_eq_ok_iff.mp applied with ⟨⟨rule, ⟨_, _, whole, id, _⟩, target⟩, -⟩
    exact ⟨rule, by rw [whole]; simp, id, target⟩
  · rintro ⟨rule, listed, id, target⟩
    rw [Detection.apply, ← id, ← target]
    exact Plan.exists_modify distinct listed d.payload.replacement

end Detection

theorem Candidate.begin_ofDetection (d : Detection) (plan : Plan) : (ofDetection d).begin plan =
    (d.apply plan).map fun confirmation => (confirmation, ⟨d, .awaiting⟩) := by
  rw [begin, ofDetection]
  cases d.apply plan <;> rfl

namespace Engine

variable {e : Engine}

/-- What a rule injects is a fragment around a marker of its own. So where any text is taken, each
document of the confirmation plan records the replacement as it is, and as requested. -/
theorem payload_recorded
    (attributeName : Name.isUncoloned e.settings.attackAttribute.toList = true)
    (elementName : Name.isUncoloned e.settings.attackElement.toList = true)
    (schema : Schema) (ledger : Ledger) (marker : Marker) :
    (∀ r v, Injected marker (Context.injectedMarker ⟨schema, ledger, marker, e.settings⟩ r v) ∧
      Markup.isFragment (r.replacement
        (Context.injectedMarker ⟨schema, ledger, marker, e.settings⟩ r v) e.settings) = true) ∧
    ∀ o, ∀ d ∈ e.analyze o schema ledger marker, ∀ plan : Plan,
      (plan.valueRules.map ValueRule.id).Nodup →
        ((∃ begun, (Candidate.ofDetection d).begin plan = .ok begun) ↔
          ∃ rule ∈ plan.valueRules, rule.id = d.rule ∧ rule.target = d.payload.object) ∧
        ∀ confirmation c, (Candidate.ofDetection d).begin plan = .ok (confirmation, c) →
          schema.TakesAnyText d.payload.object → d.RecordedIn schema confirmation := by
  have sound (r : Rule) (v : Descriptor) :
      Injected marker (Context.injectedMarker ⟨schema, ledger, marker, e.settings⟩ r v) ∧
      Markup.isFragment (r.replacement
        (Context.injectedMarker ⟨schema, ledger, marker, e.settings⟩ r v) e.settings) = true := by
    have injected := injectedMarker_injected ⟨schema, ledger, marker, e.settings⟩ r v
    exact ⟨injected, isFragment_replacement attributeName elementName injected.safe r⟩
  refine ⟨sound, fun o d detected plan distinct => ⟨?_, ?_⟩⟩
  · rw [← Detection.exists_apply_iff distinct]
    simp only [Candidate.begin_ofDetection, Outcome.map_eq_ok]
    constructor
    · rintro ⟨_, confirmation, applied, -⟩
      exact ⟨confirmation, applied⟩
    · rintro ⟨confirmation, applied⟩
      exact ⟨_, confirmation, applied, rfl⟩
  · intro confirmation c begun free
    rw [Candidate.begin_ofDetection, Outcome.map_eq_ok] at begun
    rcases begun with ⟨_, applied, same⟩
    cases same
    rcases exists_detection detected with ⟨r, -, s, -, v, -, rfl⟩
    exact Detection.recordedIn_of_apply distinct free (sound r v).2 applied

section Note

open Document (trialObject trialRule trialMarker render)
open Synthesis (noteSchema noteType)

def notePlan : Plan where
  stylesheet := "note.xsl"
  version := 1
  valueSeed := 7
  root := ⟨trialRule 3, trialObject 3, [⟨trialRule 4, trialObject 2, some "old"⟩],
    [.raw (.fresh (trialRule 5) (trialObject 1)) .full]⟩
  functions := []
  parameters := []
  requestedValues := .empty

def noteLedger : Ledger := .ofList [⟨trialObject 1, trialRule 5, "zqabcdef", false, some "zqabcdef"⟩]

def noteOutput : Output := ⟨[.element "p" .empty [.text "zqabcdef"]]⟩

def noteDetection : Detection where
  analyzerRule := "E.3"
  rule := trialRule 5
  payload := ⟨trialObject 1, ⟨[0]⟩, none, "zqe300000000", "<zqe300000000></zqe300000000>", "zqabcdef",
    "zqabcdef", []⟩

theorem payload_recorded_in_markup :
    noteDetection ∈ (standard .standard).analyze noteOutput noteSchema noteLedger trialMarker ∧
      ∃ confirmation c doc,
        (Candidate.ofDetection noteDetection).begin notePlan = .ok (confirmation, c) ∧
        render noteSchema trialMarker .standard .standard confirmation = .ok doc ∧
        doc.ledger.toList.filter (fun e => e.rule = trialRule 5) =
          [⟨trialObject 1, trialRule 5, "<zqe300000000></zqe300000000>", true,
            trialMarker.tokenIn "<zqe300000000></zqe300000000>"⟩] := by
  have detected : noteDetection ∈
      (standard .standard).analyze noteOutput noteSchema noteLedger trialMarker := by decide +kernel
  have mixed : noteSchema.TakesAnyText (trialObject 1) :=
    Schema.takesAnyText_of_mixed (t := noteType) rfl rfl
  obtain ⟨⟨confirmation, c⟩, begun⟩ : ∃ begun,
      (Candidate.ofDetection noteDetection).begin notePlan = .ok begun := ⟨_, rfl⟩
  have renders : (render noteSchema trialMarker .standard .standard confirmation).isOk = true := by
    cases begun
    decide +kernel
  rcases Outcome.exists_of_isOk renders with ⟨doc, rendered⟩
  have recorded := (payload_recorded (e := standard .standard) (by decide) (by decide) noteSchema
    noteLedger trialMarker).2 noteOutput noteDetection detected notePlan (by decide)
  exact ⟨detected, confirmation, c, doc, begun, rendered,
    recorded.2 confirmation c begun mixed trialMarker .standard .standard doc rendered⟩

end Note

end Engine

end TaintScan
