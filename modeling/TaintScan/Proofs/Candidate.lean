import Mathlib.Data.List.Pairwise
import TaintScan.Candidate.Basic
import TaintScan.Proofs.Document.SingleDifference

namespace TaintScan

namespace Candidate

/-- An operation on a candidate. A failure does not take back what was changed before. -/
abbrev Operation (α : Type) := ExceptT Error (StateM Candidate) α

namespace Operation

variable {α β : Type}

def on (c : Candidate) (operation : Operation α) : Except Error α × Candidate :=
  (ExceptT.run operation).run c

theorem on_bind (c : Candidate) (first : Operation α) (next : α → Operation β) :
    (first >>= next).on c = match first.on c with
      | (.ok a, c') => (next a).on c'
      | (.error e, c') => (.error e, c') := by
  simp only [on, ExceptT.run_bind, StateT.run_bind]
  cases ((ExceptT.run first).run c) with
  | mk answer c' => cases answer <;> rfl

theorem on_get (c : Candidate) : (get : Operation Candidate).on c = (.ok c, c) := rfl

theorem on_liftM (c : Candidate) (answer : Except Error α) :
    (liftM answer : Operation α).on c = (answer, c) := by
  cases answer <;> rfl

end Operation

def moveTo (next : CandidateState) : Operation Unit := do
  let c ← get
  if c.state.canBecome next then set { c with state := next }
  else throw (.illegalState (.about (.transition c.detection.analyzerRule c.state next)
    c.detection.rule c.detection.payload.object))

def beginHere (plan : Plan) : Operation Plan := do
  let c ← get
  let confirmation ← (c.detection.apply plan : Except Error Plan)
  moveTo .awaiting
  return confirmation

/-- Settles the candidate, and makes the finding of a confirmed one after that. -/
def resolveHere (v : Verification) : Operation (Option Finding) := do
  match v with
  | .confirmed sample =>
    moveTo .confirmed
    let c ← get
    return some (c.finding sample)
  | .refuted _ =>
    moveTo .refuted
    return none

theorem on_moveTo (c : Candidate) (next : CandidateState) : (moveTo next).on c =
    match c.transition next with
      | .ok c' => (.ok (), c')
      | .error e => (.error e, c) := by
  rw [moveTo, Operation.on_bind, Operation.on_get, transition]
  by_cases legal : c.state.canBecome next = true
  · simp only [if_pos legal]
    rfl
  · simp only [if_neg legal]
    rfl

theorem on_beginHere (c : Candidate) (plan : Plan) : (beginHere plan).on c =
    match c.begin plan with
      | .ok (confirmation, c') => (.ok confirmation, c')
      | .error e => (.error e, c) := by
  rw [beginHere, Operation.on_bind, Operation.on_get, begin]
  simp only [Operation.on_bind, Operation.on_liftM]
  cases c.detection.apply plan with
  | error e => rfl
  | ok confirmation =>
    simp only [on_moveTo]
    cases c.transition .awaiting <;> rfl

theorem on_resolveHere (c : Candidate) (v : Verification) : (resolveHere v).on c =
    match c.resolve v with
      | .ok (finding, c') => (.ok finding, c')
      | .error e => (.error e, c) := by
  cases v with
  | confirmed sample =>
    rw [resolve, resolveHere, Operation.on_bind, on_moveTo, transition]
    by_cases legal : c.state.canBecome .confirmed = true
    · simp only [if_pos legal]
      rfl
    · simp only [if_neg legal]
      rfl
  | refuted _ =>
    rw [resolve, resolveHere, Operation.on_bind, on_moveTo]
    cases c.transition .refuted <;> rfl

inductive Call
  | begin (plan : Plan)
  | resolve (v : Verification)

inductive Reply
  | planned (confirmation : Plan)
  | settled (finding : Option Finding)

namespace Call

def perform : Call → Operation Reply
  | begin plan => Reply.planned <$> beginHere plan
  | resolve v => Reply.settled <$> resolveHere v

/-- The reply to a call and the candidate behind it, for a candidate that is a value. -/
def reply (c : Candidate) : Call → Except Error (Reply × Candidate)
  | begin plan => (c.begin plan).map fun r => (.planned r.1, r.2)
  | resolve v => (c.resolve v).map fun r => (.settled r.1, r.2)

end Call

/-- A call that was made: the candidate in front of it, what it answered, and the candidate behind. -/
structure Step where
  before : Candidate
  call : Call
  answer : Except Error Reply
  after : Candidate

def step (c : Candidate) (call : Call) : Step :=
  ⟨c, call, (call.perform.on c).1, (call.perform.on c).2⟩

theorem perform_eq (c : Candidate) (call : Call) : call.perform.on c =
    match call.reply c with
      | .ok (reply, c') => (.ok reply, c')
      | .error e => (.error e, c) := by
  cases call with
  | begin plan =>
    have mapped : (Call.begin plan).perform = beginHere plan >>= fun p => pure (.planned p) := rfl
    rw [mapped, Operation.on_bind, on_beginHere, Call.reply]
    cases c.begin plan <;> rfl
  | resolve v =>
    have mapped : (Call.resolve v).perform = resolveHere v >>= fun f => pure (.settled f) := rfl
    rw [mapped, Operation.on_bind, on_resolveHere, Call.reply]
    cases c.resolve v <;> rfl

def findingOf (d : Detection) : Verification → Option Finding
  | .confirmed sample => some {
      analyzerRule := d.analyzerRule
      object := d.payload.object
      path := d.payload.path
      inputSample := d.payload.replacement
      detectedSample := d.payload.outputSample
      outputSample := sample }
  | .refuted _ => none

namespace Step

structure Lawful (d : Detection) (s : Step) : Prop where
  detection : s.before.detection = d ∧ s.after.detection = d
  agrees : s.call.reply s.before = s.answer.map fun reply => (reply, s.after)
  failed : ∀ e, s.answer = .error e → s.after = s.before
  planned : ∀ confirmation, s.answer = .ok (.planned confirmation) ↔ s.before.state = .detected ∧
    ∃ plan, s.call = .begin plan ∧ d.apply plan = .ok confirmation
  settled : ∀ finding, s.answer = .ok (.settled finding) ↔ s.before.state = .awaiting ∧
    ∃ v, s.call = .resolve v ∧ findingOf d v = finding

end Step

variable {d : Detection} {c : Candidate} {call : Call}

theorem exists_begin_error {plan : Plan}
    (illegal : c.state = .detected → ∀ p, c.detection.apply plan ≠ .ok p) :
    ∃ e, c.begin plan = .error e := by
  rw [begin]
  cases applied : c.detection.apply plan with
  | error e => exact ⟨e, rfl⟩
  | ok p =>
    have elsewhere : ¬ c.state = .detected := fun fresh => illegal fresh p applied
    rcases c with ⟨d, _ | _ | _ | _⟩
    · exact absurd rfl elsewhere
    all_goals exact ⟨_, rfl⟩

theorem exists_resolve_error (v : Verification) (elsewhere : c.state ≠ .awaiting) :
    ∃ e, c.resolve v = .error e := by
  rcases c with ⟨d, _ | _ | _ | _⟩
  case awaiting => exact absurd rfl elsewhere
  all_goals cases v <;> exact ⟨_, rfl⟩

/-- What a call does: it plans the confirmation, or settles the candidate, or fails. -/
inductive Moves (c : Candidate) : Call → Except Error Reply → Candidate → Prop
  | planned {plan confirmation : Plan} (fresh : c.state = .detected)
    (applied : c.detection.apply plan = .ok confirmation) :
    Moves c (.begin plan) (.ok (.planned confirmation)) ⟨c.detection, .awaiting⟩
  | settled {v : Verification} (awaiting : c.state = .awaiting) :
    Moves c (.resolve v) (.ok (.settled (findingOf c.detection v)))
      ⟨c.detection, if v.isConfirmed then .confirmed else .refuted⟩
  | planFails {plan : Plan} {e : Error}
    (illegal : c.state = .detected → ∀ p, c.detection.apply plan ≠ .ok p) :
    Moves c (.begin plan) (.error e) c
  | settlingFails {v : Verification} {e : Error} (elsewhere : c.state ≠ .awaiting) :
    Moves c (.resolve v) (.error e) c

theorem step_moves (c : Candidate) (call : Call) :
    Moves c call (c.step call).answer (c.step call).after := by
  rw [step, perform_eq]
  cases call with
  | begin plan =>
    by_cases legal : c.state = .detected ∧ ∃ p, c.detection.apply plan = .ok p
    · rcases legal with ⟨fresh, p, applied⟩
      have done : c.begin plan = .ok (p, ⟨c.detection, .awaiting⟩) := by
        rw [begin, applied, transition, fresh]
        rfl
      rw [Call.reply, done]
      exact .planned fresh applied
    · have illegal : c.state = .detected → ∀ p, c.detection.apply plan ≠ .ok p :=
        fun fresh p applied => legal ⟨fresh, p, applied⟩
      rcases exists_begin_error illegal with ⟨e, failed⟩
      rw [Call.reply, failed]
      exact .planFails illegal
  | resolve v =>
    by_cases awaiting : c.state = .awaiting
    · have done : c.resolve v = .ok (findingOf c.detection v,
          ⟨c.detection, if v.isConfirmed then .confirmed else .refuted⟩) := by
        cases v <;> rw [resolve, transition, awaiting] <;> rfl
      rw [Call.reply, done]
      exact .settled awaiting
    · rcases exists_resolve_error v awaiting with ⟨e, failed⟩
      rw [Call.reply, failed]
      exact .settlingFails awaiting

theorem Moves.lawful {answer : Except Error Reply} {c' : Candidate} (moves : Moves c call answer c')
    (agrees : call.reply c = answer.map fun reply => (reply, c')) :
    Step.Lawful c.detection ⟨c, call, answer, c'⟩ := by
  cases moves with
  | planned fresh applied => exact ⟨⟨rfl, rfl⟩, agrees, nofun, by simp [fresh, applied], by simp⟩
  | settled awaiting => exact ⟨⟨rfl, rfl⟩, agrees, nofun, by simp, by simp [awaiting]⟩
  | planFails illegal =>
    refine ⟨⟨rfl, rfl⟩, agrees, fun _ _ => rfl, fun p => ⟨nofun, ?_⟩, by simp⟩
    rintro ⟨fresh, plan, same, applied⟩
    cases same
    exact absurd applied (illegal fresh p)
  | settlingFails elsewhere =>
    refine ⟨⟨rfl, rfl⟩, agrees, fun _ _ => rfl, by simp, fun finding => ⟨nofun, ?_⟩⟩
    rintro ⟨awaiting, -⟩
    exact absurd awaiting elsewhere

theorem step_lawful (own : c.detection = d) (call : Call) : (c.step call).Lawful d := by
  subst own
  have agrees : call.reply c = (c.step call).answer.map fun reply => (reply, (c.step call).after) := by
    rw [step, perform_eq]
    cases call.reply c <;> rfl
  exact (c.step_moves call).lawful agrees

/-- The calls that were made, each on the candidate that the one before has left. -/
def history (c : Candidate) : List Call → List Step
  | [] => []
  | call :: rest => c.step call :: history (c.step call).after rest

namespace Step

def Fails (s : Step) : Prop := ∃ e, s.answer = .error e

def Settles (s : Step) : Prop := ∃ finding, s.answer = .ok (.settled finding)

def finding? (s : Step) : Option Finding :=
  match s.answer with
  | .ok (.settled finding) => finding
  | _ => none

end Step

theorem history_lawful (own : c.detection = d) (calls : List Call) :
    ∀ s ∈ c.history calls, s.Lawful d := by
  induction calls generalizing c with
  | nil => exact fun _ member => absurd member List.not_mem_nil
  | cons call rest ih =>
    have first := step_lawful own call
    exact List.forall_mem_cons.mpr ⟨first, ih first.detection.2⟩

theorem step_of_isTerminal (ended : c.state.isTerminal = true) (call : Call) :
    (c.step call).Fails ∧ (c.step call).after = c := by
  have lawful := step_lawful (rfl : c.detection = c.detection) call
  cases answer : (c.step call).answer with
  | error e => exact ⟨⟨e, answer⟩, lawful.failed e answer⟩
  | ok reply =>
    cases reply with
    | planned p =>
      have fresh : c.state = .detected := ((lawful.planned p).mp answer).1
      rw [fresh] at ended
      cases ended
    | settled finding =>
      have awaiting : c.state = .awaiting := ((lawful.settled finding).mp answer).1
      rw [awaiting] at ended
      cases ended

theorem history_of_isTerminal (ended : c.state.isTerminal = true) (calls : List Call) :
    ∀ s ∈ c.history calls, s.Fails := by
  induction calls with
  | nil => exact fun _ member => absurd member List.not_mem_nil
  | cons call rest ih =>
    rcases step_of_isTerminal ended call with ⟨fails, same⟩
    rw [history, same]
    exact List.forall_mem_cons.mpr ⟨fails, ih⟩

theorem Moves.isTerminal {finding : Option Finding} {c' : Candidate}
    (moves : Moves c call (.ok (.settled finding)) c') : c'.state.isTerminal = true := by
  cases moves with
  | @settled v _ => cases v <;> rfl

theorem history_settles_once (c : Candidate) (calls : List Call) :
    (c.history calls).Pairwise fun earlier later => earlier.Settles → later.Fails := by
  induction calls generalizing c with
  | nil => exact .nil
  | cons call rest ih =>
    rw [history, List.pairwise_cons]
    refine ⟨fun later member settles => ?_, ih _⟩
    rcases settles with ⟨finding, answer⟩
    have moves := c.step_moves call
    rw [answer] at moves
    exact history_of_isTerminal moves.isTerminal rest later member

theorem Step.not_settles_of_fails {s : Step} (fails : s.Fails) : ¬ s.Settles := by
  rcases fails with ⟨e, failed⟩
  rintro ⟨finding, answer⟩
  rw [failed] at answer
  cases answer

theorem Step.settles_of_finding? {s : Step} {f : Finding} (found : s.finding? = some f) : s.Settles := by
  rw [finding?] at found
  split at found
  · rename_i finding answer
    exact ⟨finding, answer⟩
  · cases found

/-- Calls on one candidate, in any order: a call that fails changes nothing, a plan is modified only
in front of the confirmation, the candidate is settled at most once and gives its finding then, and
behind that every call fails. -/
theorem lifecycle (d : Detection) (calls : List Call) :
    let steps := (ofDetection d).history calls
    (∀ s ∈ steps, s.Lawful d) ∧
      (steps.Pairwise fun earlier later => earlier.Settles → later.Fails) ∧
      (steps.Pairwise fun earlier later => ¬ (earlier.Settles ∧ later.Settles)) ∧
      (steps.filterMap Step.finding?).length ≤ 1 := by
  intro steps
  have once := history_settles_once (ofDetection d) calls
  have single : steps.Pairwise fun earlier later => ¬ (earlier.Settles ∧ later.Settles) := by
    apply once.imp
    rintro earlier later fails ⟨settles, again⟩
    exact Step.not_settles_of_fails (fails settles) again
  refine ⟨history_lawful rfl calls, once, single, ?_⟩
  have findings : (steps.filterMap Step.finding?).Pairwise fun _ _ => False := by
    apply List.pairwise_filterMap.mpr
    apply single.imp
    intro earlier later notBoth f found f' found'
    exact notBoth ⟨Step.settles_of_finding? found, Step.settles_of_finding? found'⟩
  match listed : steps.filterMap Step.finding? with
  | [] => exact Nat.zero_le 1
  | [f] => exact Nat.le_refl 1
  | f :: f' :: rest =>
    rw [listed] at findings
    exact (List.rel_of_pairwise_cons findings List.mem_cons_self).elim

section Trial

open Document (trialPlan trialRule trialObject)

def trialDetection : Detection where
  analyzerRule := "A.1"
  rule := trialRule 11
  payload := ⟨trialObject 1, ⟨[0]⟩, some "zqabcdef", "style", "style", "zqabcdef", "zqabcdef=\"\"", []⟩

/-- Two verifications too early and too late, and a plan that is modified twice. -/
def trialCalls : List Call :=
  [.resolve (.refuted "early"), .begin trialPlan, .begin trialPlan, .resolve (.confirmed "seen"),
    .resolve (.confirmed "late")]

theorem lifecycle_confirmed_between :
    let steps := (ofDetection trialDetection).history trialCalls
    steps.map (fun s => s.answer.isOk) = [false, true, false, true, false] ∧
      steps.filterMap Step.finding? =
        [⟨"A.1", trialObject 1, ⟨[0]⟩, "style", "zqabcdef=\"\"", "seen"⟩] ∧
      (∀ s ∈ steps, s.Lawful trialDetection) ∧
      (steps.Pairwise fun earlier later => earlier.Settles → later.Fails) := by
  rcases lifecycle trialDetection trialCalls with ⟨lawful, once, -⟩
  exact ⟨by decide +kernel, by decide +kernel, lawful, once⟩

end Trial

end Candidate

end TaintScan
