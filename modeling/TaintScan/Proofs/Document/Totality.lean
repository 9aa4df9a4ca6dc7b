import Mathlib.Logic.Relation
import TaintScan.Proofs.Document.SingleDifference
import TaintScan.Proofs.Plan.Growing
import TaintScan.Proofs.Plan.Unrequested

namespace TaintScan

namespace Plan

/-- The second plan is the first with one more value asked for. -/
def Modifies (p q : Plan) : Prop := ∃ id object value, p.modify id object value = .ok q

theorem Fits.modifications {schema : Schema} {p q : Plan} (fits : p.Fits schema)
    (modified : Relation.ReflTransGen Modifies p q) : q.Fits schema := by
  induction modified with
  | refl => exact fits
  | tail _ step kept =>
    obtain ⟨id, object, value, edited⟩ := step
    exact kept.modify edited

end Plan

namespace Document

open Synthesis (BreaksDown FirstBreak)

variable {schema : Schema} {generation : GenerationSettings} {mode : RawMode}
  {choice : Plan.RootChoice} {source rest : Random.Source} {plan last : Plan}

theorem Renders.not_breaksDown {marker : Marker} {settings : ValueSettings} {cause : Breakdown}
    (h : Renders schema marker settings plan) {r : ValueRule} (member : r ∈ plan.valueRules) :
    ¬ BreaksDown (contextOf schema marker settings plan) r cause := by
  obtain ⟨root, fs, ps, written, -⟩ := h
  obtain ⟨d, -, described⟩ := Outcome.forall₂_exists written.described member
  exact fun broken => nomatch described.symm.trans broken.describe_eq

theorem Renders.not_firstBreak {marker : Marker} {settings : ValueSettings} {cause : Breakdown}
    (h : Renders schema marker settings plan) :
    ¬ FirstBreak (contextOf schema marker settings plan) plan.valueRules cause := by
  rintro ⟨earlier, r, later, split, -, broken⟩
  exact h.not_breaksDown (by simp [split]) broken

/-- Asking for a value takes nothing away: when it may not be given, the value made up before is made
up again. -/
theorem Renders.modify {marker : Marker} {settings : ValueSettings} {id : RuleId} {object : ObjectId}
    {value : String} (h : Renders schema marker settings plan) (fits : plan.Fits schema)
    (free : Unrequested plan.valueRules) (edited : plan.modify id object value = .ok last) :
    Renders schema marker settings last := by
  obtain ⟨-, pinned, done, edit⟩ := Plan.modify_eq_ok edited
  obtain ⟨earlier, rule, later, pins⟩ := (Plan.pin?_cases done).pinsFirst.split
  have rules : last.valueRules = earlier ++ rule.pinned value :: later := by
    rw [← pins.after, edit]
    rfl
  have same : contextOf schema marker settings last = contextOf schema marker settings plan := by
    rw [contextOf, contextOf, edit, ← (Plan.pin?_frame done).2.2.1]
  refine (renders_of_fits (fits.modify edited) marker settings).resolve_right ?_
  rintro ⟨cause, ⟨front, r, back, split, -, broken⟩, -⟩
  rw [same] at broken
  have member : r ∈ earlier ++ rule.pinned value :: later := by simp [← rules, split]
  have all : ∀ q ∈ earlier ++ rule :: later, ¬ BreaksDown (contextOf schema marker settings plan) q cause :=
    fun q inside => h.not_breaksDown (pins.before ▸ inside)
  simp only [List.forall_mem_append, List.forall_mem_cons] at all
  rcases List.mem_append.mp member with before | rest
  · exact all.1 r before broken
  · rcases List.mem_cons.mp rest with rfl | behind
    · have unasked : rule.requested = none := free rule (by simp [pins.before])
      exact all.2.1 (broken.of_asking unasked)
    · exact all.2.2 r behind broken

theorem render_of_firstBreak (fits : plan.Fits schema) {marker : Marker} {settings : ValueSettings}
    {cause : Breakdown} (broken : FirstBreak (contextOf schema marker settings plan) plan.valueRules cause)
    (limits : Limits) : render schema marker settings limits plan = .error (.breakdown cause) := by
  rcases renders_of_fits fits marker settings with renders | ⟨other, first, failed⟩
  · exact absurd broken renders.not_firstBreak
  · rw [broken.unique first]
    exact failed limits

/-- A grown plan, with any values asked for in it one after another, has one document for each marker
and settings. Rendering gives it when the limit admits its size and is over the limit otherwise. There
is none just if no value can be made up for a rule, and then rendering breaks down. -/
theorem render_of_generated (checked : schema.check = .ok ())
    (made : Plan.generate schema generation mode choice source = .ok (plan, rest))
    (modified : Relation.ReflTransGen Plan.Modifies plan last) (marker : Marker)
    (settings : ValueSettings) :
    (Renders schema marker settings last ↔
      ∀ cause, ¬ FirstBreak (contextOf schema marker settings last) last.valueRules cause) ∧
    (∀ cause, FirstBreak (contextOf schema marker settings last) last.valueRules cause →
      ∀ limits, render schema marker settings limits last = .error (.breakdown cause)) ∧
    (settings.freshValueProbability.isNaN = false →
      Synthesis.suffixLength marker settings ≤ Breakdown.mostBytes →
        Renders schema marker settings last) := by
  have fits : last.Fits schema :=
    (Plan.generate_fits (Schema.sound_of_check checked) made).modifications modified
  have outcome := renders_of_fits fits marker settings
  refine ⟨⟨fun renders cause => renders.not_firstBreak, fun unbroken => ?_⟩,
    fun cause broken => render_of_firstBreak fits broken, fun number room => ?_⟩
  · exact outcome.resolve_right fun ⟨cause, broken, _⟩ => unbroken cause broken
  · exact outcome.resolve_right fun ⟨cause, broken, _⟩ => broken.false_of_room number room

section Trial

open Plan (generate)

theorem render_of_generated_refused : trialSchema.check = .ok () ∧
    ∃ plan rest last,
      generate trialSchema .standard .full .uniform ⟨fun _ => 0, 0⟩ = .ok (plan, rest) ∧
      Plan.Modifies plan last ∧ Renders trialSchema trialMarker ⟨0.75, 9, 3, 6⟩ last := by
  have checked : trialSchema.check = .ok () := rfl
  obtain ⟨last, done⟩ := Outcome.exists_of_isOk (x := do
    let grown ← generate trialSchema .standard .full .uniform ⟨fun _ => 0, 0⟩
    grown.1.modify ⟨⟨0x40008000000000000000⟩⟩ (trialObject 1) "<") (by decide +kernel)
  obtain ⟨⟨plan, rest⟩, made, edited⟩ := Outcome.bind_eq_ok.mp done
  have modifies : Plan.Modifies plan last := ⟨_, _, _, edited⟩
  have number : (0.75 : Float).isNaN = false := by decide
  have room : Synthesis.suffixLength trialMarker ⟨0.75, 9, 3, 6⟩ ≤ Breakdown.mostBytes := by decide
  exact ⟨checked, plan, rest, last, made, modifies,
    (render_of_generated checked made (.single modifies) trialMarker ⟨0.75, 9, 3, 6⟩).2.2 number room⟩

def endlessSettings : ValueSettings := { ValueSettings.standard with randomSuffixLength := 9223372036854775808 }

theorem endless_breaksDown {r : ValueRule} (target : r.target = trialObject 2)
    (unasked : r.requested = none) (plan : Plan) :
    Synthesis.BreaksDown (contextOf trialSchema trialMarker endlessSettings plan) r .capacity := by
  have known : trialSchema.object r.target =
      .ok (.attributeDecl trialType (.mandatory (trialObject 2) "name" .anyText)) := by
    rw [target]
    rfl
  have unusable : Synthesis.usableRequest? .anyText r = none := by
    rw [Synthesis.usableRequest?, unasked]
    rfl
  have long : Breakdown.mostBytes < Synthesis.suffixLength trialMarker endlessSettings := by decide
  exact ⟨_, .anyText, known, rfl, unusable, rfl, .inl rfl, long⟩

theorem generated_not_always_rendered : trialSchema.check = .ok () ∧
    ScanSettings.check { ScanSettings.standard with values := endlessSettings } = .ok () ∧
    ∃ plan rest, generate trialSchema .standard .full .uniform ⟨fun _ => 0, 0⟩ = .ok (plan, rest) ∧
      ∀ limits, render trialSchema trialMarker endlessSettings limits plan =
        .error (.breakdown .capacity) := by
  have checked : trialSchema.check = .ok () := rfl
  obtain ⟨⟨plan, rest⟩, made, first⟩ := Outcome.exists_of_any
    (x := generate trialSchema .standard .full .uniform ⟨fun _ => 0, 0⟩)
    (p := fun grown => grown.1.valueRules.head?.map ValueRule.target == some (trialObject 2))
    (by decide +kernel)
  obtain ⟨r, leading, target⟩ := Option.map_eq_some_iff.mp (eq_of_beq first)
  obtain ⟨later, rules⟩ : ∃ later, plan.valueRules = r :: later := List.head?_eq_some_iff.mp leading
  have unasked : r.requested = none := (Plan.generate_unrequested made).1 r (by simp [rules])
  have broken : FirstBreak (contextOf trialSchema trialMarker endlessSettings plan) plan.valueRules
      .capacity := ⟨[], r, later, rules, nofun, endless_breaksDown target unasked plan⟩
  have fits := Plan.generate_fits (Schema.sound_of_check checked) made
  exact ⟨checked, rfl, plan, rest, made, render_of_firstBreak fits broken⟩

end Trial

end Document

end TaintScan
