import TaintScan.Proofs.Document.SingleDifference

namespace TaintScan

open Synthesis (Context describe describeUnder)

/-- A value may be given to the object of a rule: it satisfies the constraint, and full raw content is
a fragment. -/
def ValueRule.Takes (schema : Schema) (rule : ValueRule) (value : String) : Prop :=
  ∃ object c, schema.object rule.target = .ok object ∧ object.valueConstraint? = some c ∧
    c.accepts value = true ∧ (rule.mode = some .full → Markup.isFragment value = true)

/-- The descriptor of a value rule: where the value came from, and whether it was asked for. -/
structure Descriptor.Records (schema : Schema) (marker : Marker) (r : ValueRule)
    (d : Descriptor) : Prop where
  rule : d.rule = r.id
  object : d.object = r.target
  requested : d.requested = true ↔ ∃ value, r.requested = some value ∧ r.Takes schema value
  verbatim : d.requested = true → r.requested = some d.value
  marker : d.marker = marker.tokenIn d.value

namespace Synthesis

variable {ctx : Context} {r : ValueRule} {d : Descriptor} {c : DataConstraint} {value : String}

theorem acceptsValue_iff {mode : Option RawMode} : acceptsValue c mode value = true ↔
    c.accepts value = true ∧ (mode = some .full → Markup.isFragment value = true) := by
  simp only [acceptsValue, Bool.and_eq_true, Bool.or_eq_true, bne_iff_ne]
  by_cases full : mode = some .full
  · simp [full]
  · simp [full]

theorem takes_iff {object : SchemaObject} (known : ctx.schema.object r.target = .ok object)
    (constraint : object.valueConstraint? = some c) :
    r.Takes ctx.schema value ↔ acceptsValue c r.mode value = true := by
  rw [acceptsValue_iff]
  constructor
  · rintro ⟨object', c', known', constraint', accepted⟩
    obtain rfl := Outcome.unique known known'
    obtain rfl := Option.some.inj (constraint.symm.trans constraint')
    exact accepted
  · exact fun accepted => ⟨object, c, known, constraint, accepted⟩

theorem describe_records (h : describe ctx r = .ok d) : d.Records ctx.schema ctx.marker r := by
  obtain ⟨rule, target⟩ := describe_provenance h
  obtain ⟨object, c, known, constraint, described⟩ := describe_eq_ok.mp h
  rcases describeUnder_eq_ok.mp described with ⟨value, usable, rfl⟩ | ⟨unusable, value, -, rfl⟩
  · obtain ⟨asked, accepted⟩ := Option.filter_eq_some_iff.mp usable
    have taken := (takes_iff known constraint).mpr accepted
    exact ⟨rule, target, iff_of_true rfl ⟨value, asked, taken⟩, fun _ => asked, rfl⟩
  · have refused : ¬ ∃ value, r.requested = some value ∧ r.Takes ctx.schema value := by
      rintro ⟨value, asked, taken⟩
      exact Option.filter_eq_none_iff.mp unusable value asked ((takes_iff known constraint).mp taken)
    exact ⟨rule, target, iff_of_false nofun refused, nofun, rfl⟩

end Synthesis

namespace Document

variable {schema : Schema} {marker : Marker} {settings : ValueSettings} {limits : Limits}
  {plan : Plan} {doc : Document}

/-- The descriptors of a rendered plan are those of its value rules, one for each and in order. -/
theorem render_records (h : render schema marker settings limits plan = .ok doc) :
    List.Forall₂ (fun rule d => Descriptor.Records schema marker rule d) plan.valueRules
      doc.ledger.toList :=
  (render_described h).imp fun _ _ made => Synthesis.describe_records made

theorem render_records_shared_identity : ∃ doc,
    render trialSchema trialMarker .standard .standard trialPlan = .ok doc ∧
      List.Forall₂ (fun rule d => Descriptor.Records trialSchema trialMarker rule d)
        trialPlan.valueRules doc.ledger.toList := by
  obtain ⟨doc, made⟩ := Outcome.exists_of_isOk
    (x := render trialSchema trialMarker .standard .standard trialPlan) (by decide +kernel)
  exact ⟨doc, made, render_records made⟩

end Document

end TaintScan
