import Mathlib.Data.List.Nodup
import TaintScan.Analysis.Engine
import TaintScan.Proofs.Document.Writing
import TaintScan.Proofs.Plan.Pinning

namespace TaintScan

namespace Engine

variable {e : Engine}

theorem firstOfEach_subset {α κ : Type} [DecidableEq κ] {key : α → κ} {seen : List κ}
    {items : List α} : ∀ a ∈ firstOfEach key seen items, a ∈ items := by
  induction items generalizing seen with
  | nil => intro a member; cases member
  | cons first rest ih =>
    intro a member
    rw [firstOfEach] at member
    split at member
    · exact List.mem_cons_of_mem _ (ih a member)
    · rcases List.mem_cons.mp member with rfl | member
      · exact List.mem_cons_self
      · exact List.mem_cons_of_mem _ (ih a member)

theorem rule_of_mem {r : Rule} (member : r ∈ e.rules) : e.rule r.id = .ok r := by
  unfold rule
  cases found : e.rules.find? fun other => other.id == r.id with
  | none =>
    have absent := List.find?_eq_none.mp found r member
    simp at absent
  | some other =>
    have same : other.id = r.id := by simpa using List.find?_some found
    rw [Rule.id_injective same]

end Engine

/-- A detection of a rule of the engine that proposes to replace a value of the plan. -/
structure Detection.Grounded (e : Engine) (plan : Plan) (d : Detection) : Prop where
  rule : ∃ r ∈ e.rules, d.analyzerRule = r.id
  value : ∃ v ∈ plan.valueRules, v.id = d.rule ∧ v.target = d.payload.object

namespace Engine

variable {e : Engine} {o : Output}

theorem exists_detection {schema : Schema} {ledger : Ledger} {marker : Marker} {d : Detection}
    (h : d ∈ e.analyze o schema ledger marker) : ∃ r ∈ e.rules, ∃ s ∈ o.sites, ∃ v ∈ ledger.toList,
      Context.detection ⟨schema, ledger, marker, e.settings⟩ r s v = d := by
  obtain ⟨s, site, tried⟩ := List.mem_flatMap.mp (firstOfEach_subset d h)
  obtain ⟨r, chosen, seen⟩ := List.mem_flatMap.mp tried
  have registered := (List.mem_filter.mp chosen).1
  unfold Context.detect at seen
  split at seen
  · obtain ⟨v, tracked, made⟩ := List.mem_map.mp seen
    have found := (List.mem_filter.mp tracked).1
    have listed := (List.mem_filter.mp (List.mem_filter.mp found).1).1
    exact ⟨r, registered, s, site, v, listed, made⟩
  · cases seen

theorem analyze_grounded {schema : Schema} {marker : Marker} {settings : ValueSettings}
    {limits : Limits} {plan : Plan} {doc : Document}
    (rendered : Document.render schema marker settings limits plan = .ok doc) {d : Detection}
    (h : d ∈ e.analyze o schema doc.ledger marker) : d.Grounded e plan := by
  obtain ⟨r, registered, s, -, v, listed, rfl⟩ := exists_detection h
  obtain ⟨rule, member, described⟩ := (Document.render_described rendered).origin listed
  obtain ⟨id, target⟩ := Synthesis.describe_provenance described
  exact ⟨⟨r, registered, rfl⟩, rule, member, id.symm, target.symm⟩

end Engine

namespace Plan

variable {p : Plan} {id : RuleId}

theorem lastRule?_of_mem (distinct : (p.valueRules.map ValueRule.id).Nodup) {r : ValueRule}
    (member : r ∈ p.valueRules) : p.lastRule? r.id = some r := by
  cases found : p.lastRule? r.id with
  | none =>
    have absent := List.find?_eq_none.mp found r (List.mem_reverse.mpr member)
    simp at absent
  | some other =>
    obtain ⟨inside, same⟩ := lastRule?_eq_some found
    rw [List.inj_on_of_nodup_map distinct inside member same]

theorem exists_modify (distinct : (p.valueRules.map ValueRule.id).Nodup) {r : ValueRule}
    (member : r ∈ p.valueRules) (value : String) : ∃ p', p.modify r.id r.target value = .ok p' := by
  simp only [modify, targetOf, lastRule?_of_mem distinct member, if_true]
  exact ⟨_, rfl⟩

end Plan

namespace Detection.Grounded

variable {e : Engine} {plan : Plan} {d : Detection}

theorem exists_apply (h : d.Grounded e plan) (distinct : (plan.valueRules.map ValueRule.id).Nodup) :
    ∃ confirmation, d.apply plan = .ok confirmation := by
  obtain ⟨v, member, id, target⟩ := h.value
  obtain ⟨confirmation, done⟩ := Plan.exists_modify distinct member d.payload.replacement
  exact ⟨confirmation, by rw [Detection.apply, ← id, ← target, done]⟩

theorem exists_rule (h : d.Grounded e plan) : ∃ r, e.rule d.analyzerRule = .ok r := by
  obtain ⟨r, member, same⟩ := h.rule
  exact ⟨r, same ▸ Engine.rule_of_mem member⟩

theorem exists_verify [Uri.Idna] (h : d.Grounded e plan) (o : Output) : ∃ v, e.verify d o = .ok v := by
  obtain ⟨r, found⟩ := h.exists_rule
  exact ⟨r.verify d.payload o, by rw [Engine.verify, found]⟩

end Detection.Grounded

end TaintScan
