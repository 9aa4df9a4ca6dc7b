import TaintScan.Proofs.Analysis.Provenance
import TaintScan.Proofs.Document.Totality
import TaintScan.Scan.Cycle

namespace TaintScan

namespace Output

theorem buildEvent_error {b : Builder} {event : Markup.Event} {e : Error}
    (h : buildEvent b event = .error e) : ∃ fault, e = .output fault := by
  have element : ∀ (tag : Markup.Tag) (next : Element → Builder),
      (elementOf tag).map next = .error e → ∃ fault, e = .output fault := by
    intro tag next failed
    unfold elementOf at failed
    split at failed
    · cases failed
      exact ⟨_, rfl⟩
    · cases failed
  unfold buildEvent at h
  split at h
  · exact element _ _ h
  · exact element _ _ h
  all_goals cases h

theorem build_error {b : Builder} {events : List Markup.Event} {e : Error}
    (h : build b events = .error e) : ∃ fault, e = .output fault := by
  induction events generalizing b with
  | nil => cases h
  | cons event rest ih =>
    unfold build at h
    split at h
    · exact ih h
    · rename_i failed
      cases h
      exact buildEvent_error failed

theorem parse_error {text : String} {e : Error} (h : parse text = .error e) :
    ∃ fault, e = .output fault := by
  unfold parse at h
  simp only at h
  split at h
  · rename_i failed
    cases h
    exact build_error failed
  · split at h
    · cases h
      exact ⟨_, rfl⟩
    · cases h

end Output

theorem TransformOutcome.receive_error {outcome : TransformOutcome} {limits : Limits} {timeout : Nat}
    {stylesheet : String} {e : Error} (h : outcome.receive limits timeout stylesheet = .error e) :
    e.isCollaboratorFailure = true := by
  cases outcome with
  | output text =>
    simp only [receive, Limits.checkOutputSize] at h
    split at h
    · cases h
      rfl
    · cases h
  | failed | crashed | late =>
    cases h
    rfl

namespace Candidate

variable {d : Detection}

theorem begin_of_apply {plan confirmation : Plan} (h : d.apply plan = .ok confirmation) :
    (ofDetection d).begin plan = .ok (confirmation, ⟨d, .awaiting⟩) := by
  simp only [begin, ofDetection, h]
  rfl

theorem resolve_awaiting (v : Verification) : (⟨d, .awaiting⟩ : Candidate).resolve v = .ok
    (match v with
      | .confirmed sample => (some ((ofDetection d).finding sample), ⟨d, .confirmed⟩)
      | .refuted _ => (none, ⟨d, .refuted⟩)) := by
  cases v <;> rfl

end Candidate

namespace Scanner

variable {s : Scanner} {plan : Plan} {d : Detection}

theorem received_error {outcome : TransformOutcome} {e : Error}
    (h : s.received outcome = .error e) : e.isCollaboratorFailure = true := by
  unfold received at h
  cases reply : outcome.receive s.settings.limits s.settings.transformTimeout.toNat
      s.schema.stylesheet with
  | error e' =>
    rw [reply] at h
    cases h
    exact TransformOutcome.receive_error reply
  | ok text =>
    rw [reply] at h
    obtain ⟨fault, rfl⟩ := Output.parse_error h
    rfl

theorem execute_eq_ok {run : Document × Output} (h : (s.execute plan).result = .ok run) :
    s.render plan = .ok run.1 := by
  unfold execute at h
  split at h
  · cases h
  · rename_i document rendered
    obtain ⟨output, -, rfl⟩ := Outcome.map_eq_ok.mp h
    exact rendered

/-- The plan has a document, which is rendered if it is small enough. -/
def Renders (s : Scanner) (plan : Plan) : Prop :=
  Document.Renders s.schema s.marker s.settings.values plan

def Survivable {α : Type} (x : Except Error α) : Prop :=
  ∀ e, x = .error e → e.isCollaboratorFailure = true

theorem execute_survivable (renders : s.Renders plan) : Survivable (s.execute plan).result := by
  intro e h
  unfold execute at h
  rcases Document.Renders.cases renders s.settings.limits with ⟨document, rendered⟩ | ⟨fault, rendered⟩
  · simp only [render, rendered] at h
    cases heard : s.received (s.transformer document s.schema.stylesheet).outcome with
    | error e' =>
      rw [heard] at h
      cases h
      exact received_error heard
    | ok output =>
      rw [heard] at h
      cases h
  · simp only [render, rendered] at h
    cases h
    rfl

theorem exists_judge [Uri.Idna] (grounded : d.Grounded s.engine plan) {run : Except Error (Document × Output)}
    (h : Survivable run) : ∃ v, s.judge d run = .ok v := by
  cases run with
  | error e => exact ⟨_, by rw [judge, if_pos (h e rfl)]⟩
  | ok run => exact grounded.exists_verify run.2

theorem confirm_of_apply [Uri.Idna] {confirmation : Plan} (h : d.apply plan = .ok confirmation) :
    (s.confirm plan d).result = ((s.judge d (s.execute confirmation).result).bind
      (⟨d, .awaiting⟩ : Candidate).resolve).map Prod.fst := by
  simp only [confirm, Candidate.begin_of_apply h]

structure Launched (s : Scanner) (plan : Plan) : Prop where
  fits : plan.Fits s.schema
  free : Unrequested plan.valueRules
  renders : s.Renders plan

theorem Launched.renders_of_apply {confirmation : Plan} (launched : s.Launched plan)
    (applied : d.apply plan = .ok confirmation) : s.Renders confirmation :=
  Document.Renders.modify launched.renders launched.fits launched.free applied

theorem exists_confirm [Uri.Idna] (launched : s.Launched plan)
    (distinct : (plan.valueRules.map ValueRule.id).Nodup) (grounded : d.Grounded s.engine plan) :
    ∃ settled, (s.confirm plan d).result = .ok settled := by
  obtain ⟨confirmation, applied⟩ := grounded.exists_apply distinct
  have renders : s.Renders confirmation := launched.renders_of_apply applied
  obtain ⟨v, judged⟩ := exists_judge grounded (execute_survivable renders)
  rw [confirm_of_apply applied, judged]
  exact ⟨_, by rw [Except.bind, Candidate.resolve_awaiting]; rfl⟩

/-- The confirmation run of a detection shows the injected value where it was predicted. -/
def Confirms [Uri.Idna] (s : Scanner) (plan : Plan) (d : Detection) : Prop :=
  ∃ confirmation run sample, d.apply plan = .ok confirmation ∧
    (s.execute confirmation).result = .ok run ∧ s.engine.verify d run.2 = .ok (.confirmed sample)

theorem judge_eq_confirmed [Uri.Idna] {run : Except Error (Document × Output)} {sample : String} :
    s.judge d run = .ok (.confirmed sample) ↔
      ∃ seen, run = .ok seen ∧ s.engine.verify d seen.2 = .ok (.confirmed sample) := by
  cases run with
  | error e =>
    simp only [judge]
    split <;> simp
  | ok seen => simp [judge]

/-- A finding is settled on exactly when the run confirms, and it is reported under the key of its
detection. -/
theorem confirm_eq_some [Uri.Idna] : (∃ f, (s.confirm plan d).result = .ok (some f)) ↔ s.Confirms plan d := by
  constructor
  · rintro ⟨f, h⟩
    cases applied : d.apply plan with
    | error e =>
      simp only [confirm, Candidate.begin, Candidate.ofDetection, applied] at h
      cases h
    | ok confirmation =>
      rw [confirm_of_apply applied] at h
      cases judged : s.judge d (s.execute confirmation).result with
      | error e =>
        rw [judged] at h
        cases h
      | ok v =>
        rw [judged, Except.bind, Candidate.resolve_awaiting] at h
        cases v with
        | refuted reason => cases h
        | confirmed sample =>
          obtain ⟨run, ran, verified⟩ := judge_eq_confirmed.mp judged
          exact ⟨confirmation, run, sample, applied, ran, verified⟩
  · rintro ⟨confirmation, run, sample, applied, ran, verified⟩
    have judged := judge_eq_confirmed.mpr ⟨run, ran, verified⟩
    rw [confirm_of_apply applied, judged, Except.bind, Candidate.resolve_awaiting]
    exact ⟨_, rfl⟩

theorem confirm_reportKey [Uri.Idna] {f : Finding} (h : (s.confirm plan d).result = .ok (some f)) :
    f.reportKey = d.reportKey := by
  obtain ⟨confirmation, run, sample, applied, ran, verified⟩ := confirm_eq_some.mp ⟨f, h⟩
  have judged := judge_eq_confirmed.mpr ⟨run, ran, verified⟩
  rw [confirm_of_apply applied, judged, Except.bind, Candidate.resolve_awaiting] at h
  cases h
  rfl

end Scanner

end TaintScan
