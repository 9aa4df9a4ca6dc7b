import TaintScan.Proofs.Scan.Interleaving

namespace TaintScan

variable [Uri.Idna]

variable {s : Scanner} {plan : Plan} {left iteration : Nat} {summary : ScanSummary} {b : Board}

namespace Cycle

theorem steps_reached (n : Nat) (c : Cycle) {before after : List Cycle} :
    s.Reaches (.calm s.transformer)
      (.confirming left iteration plan summary (before ++ c :: after) b)
      (.confirming left iteration plan summary (before ++ (steps s plan n (c, b)).1 :: after)
        (steps s plan n (c, b)).2) := by
  induction n generalizing c b with
  | zero => exact .refl
  | succ n ih =>
    simp only [steps]
    cases able : c.canStep b with
    | false =>
      rw [step_idle able]
      exact ih c
    | true =>
      have move : s.Moves (.calm s.transformer)
          (.confirming left iteration plan summary (before ++ c :: after) b)
          (.confirming left iteration plan summary (before ++ (c.step s plan b).1 :: after)
            (c.step s plan b).2) := .cycle rfl able
      exact .head move (ih (c.step s plan b).1)

theorem run_done (s : Scanner) (plan : Plan) (free : b.permits ≠ 0) (d : Detection) :
    (run s plan b d).1.isDone = true ∧ (run s plan b d).2.permits = b.permits := by
  have taken : b.permits - 1 + 1 = b.permits := by omega
  simp only [run, steps]
  cases seen : b.isReported d.reportKey with
  | true => simp [step, seen, isDone]
  | false =>
    cases off : b.cancelled with
    | true => simp [step, seen, free, off, isDone]
    | false =>
      cases result : (s.confirm plan d).result with
      | error e => simp [step, seen, free, off, result, settle, isDone, taken]
      | ok settled =>
        cases settled with
        | none => simp [step, seen, free, off, result, settle, isDone, taken]
        | some f =>
          cases again : (b.acquire.cancelIf (s.confirm plan d).cancels).isReported f.reportKey with
          | true => simp [step, seen, free, off, result, settle, again, isDone, taken]
          | false => simp [step, seen, free, off, result, settle, again, isDone, taken]

theorem run_of_confirm {d : Detection} {f : Finding} (found : s.confirm plan d = ⟨.ok (some f), false⟩)
    (same : f.reportKey = d.reportKey) (free : b.permits ≠ 0) (on : b.cancelled = false) :
    run s plan b d = if b.isReported d.reportKey then (ended .duplicate, b)
      else (ended .confirmed, (b.acquire.report f).release) := by
  simp only [run, steps]
  cases seen : b.isReported d.reportKey with
  | true => simp [step, seen]
  | false =>
    have unseen : b.acquire.isReported d.reportKey = false := seen
    simp [step, settle, seen, unseen, free, on, found, same]

theorem runAll_done (s : Scanner) (plan : Plan) (free : b.permits ≠ 0) (ds : List Detection) :
    (∀ c ∈ (runAll s plan b ds).1, c.isDone = true) ∧
      (runAll s plan b ds).2.permits = b.permits := by
  induction ds generalizing b with
  | nil => simp [runAll]
  | cons d rest ih =>
    obtain ⟨first, permits⟩ := run_done s plan free d
    have others := ih (permits ▸ free)
    simp only [runAll, List.forall_mem_cons]
    exact ⟨⟨first, others.1⟩, others.2.trans permits⟩

theorem runAll_reached_behind (ds : List Detection) (before : List Cycle) :
    s.Reaches (.calm s.transformer)
      (.confirming left iteration plan summary (before ++ ds.map fresh) b)
      (.confirming left iteration plan summary (before ++ (runAll s plan b ds).1)
        (runAll s plan b ds).2) := by
  induction ds generalizing before b with
  | nil => exact .refl
  | cons d rest ih =>
    have first : s.Reaches (.calm s.transformer)
        (.confirming left iteration plan summary (before ++ fresh d :: rest.map fresh) b)
        (.confirming left iteration plan summary (before ++ (run s plan b d).1 :: rest.map fresh)
          (run s plan b d).2) := steps_reached 4 (fresh d)
    have split : before ++ (run s plan b d).1 :: rest.map fresh =
        (before ++ [(run s plan b d).1]) ++ rest.map fresh := by simp
    rw [split] at first
    have others := first.trans (ih _)
    rw [List.append_assoc] at others
    exact others

theorem runAll_reached (ds : List Detection) :
    s.Reaches (.calm s.transformer) (.confirming left iteration plan summary (ds.map fresh) b)
      (.confirming left iteration plan summary (runAll s plan b ds).1 (runAll s plan b ds).2) :=
  runAll_reached_behind ds []

end Cycle

namespace Scanner

def continued (left iteration : Nat) (done : ScanResult) : Progress :=
  .join left iteration done.board done.summary

theorem iterate_of_confirm {run : Document × Output} {d : Detection} {f : Finding}
    (planned : s.planOf iteration = .ok plan) (executed : s.execute plan = ⟨.ok run, false⟩)
    (detected : s.detections run = [d]) (found : s.confirm plan d = ⟨.ok (some f), false⟩)
    (same : f.reportKey = d.reportKey) (free : b.permits ≠ 0) (on : b.cancelled = false) :
    s.iterate iteration summary b =
      if b.isReported d.reportKey then ⟨.ok ((summary.begin.detect 1).count .duplicate), b⟩
      else ⟨.ok ((summary.begin.detect 1).count .confirmed), (b.acquire.report f).release⟩ := by
  have cycle := Cycle.run_of_confirm found same free on
  simp only [iterate, planned, executed, Board.cancelIf_false, afterFirstRun, detected, Cycle.runAll, cycle]
  split <;> rfl

theorem iterations_of_iterate {n : Nat} {counted : ScanSummary} {after : Board} (on : b.cancelled = false)
    (done : s.iterate iteration summary b = ⟨.ok counted, after⟩) :
    s.iterations (n + 1) iteration summary b = s.iterations n (iteration + 1) counted after := by
  simp [iterations, on, done]

theorem iterate_reached (free : b.permits ≠ 0) :
    s.Reaches (.calm s.transformer) (s.launch left iteration summary b)
        (continued left iteration (s.iterate iteration summary b)) ∧
      (s.iterate iteration summary b).board.permits = b.permits := by
  unfold launch iterate
  cases planned : s.planOf iteration with
  | error e => exact ⟨.refl, rfl⟩
  | ok plan =>
    simp only
    cases result : (s.execute plan).result with
    | error e =>
      simp only [afterFirstRun]
      split
      · exact ⟨.refl, rfl⟩
      · exact ⟨.refl, rfl⟩
    | ok seen =>
      have free' : (b.cancelIf (s.execute plan).cancels).permits ≠ 0 := free
      obtain ⟨done, permits⟩ := Cycle.runAll_done s plan free' (s.detections seen)
      exact ⟨.tail (Cycle.runAll_reached (s.detections seen)) (.join done), permits⟩

theorem iterations_reached (n : Nat) (free : b.permits ≠ 0) :
    s.Reaches (.calm s.transformer) (.ready n iteration summary b)
      (.ended (s.iterations n iteration summary b)) := by
  induction n generalizing iteration summary b with
  | zero => exact .single .finish
  | succ n ih =>
    unfold iterations
    cases off : b.cancelled with
    | true => exact .single (.stop off)
    | false =>
      have launched : s.Moves (.calm s.transformer) (.ready (n + 1) iteration summary b)
          (s.launch n iteration summary b) := .launch rfl off
      obtain ⟨inside, permits⟩ := iterate_reached free
      have first := Relation.ReflTransGen.head launched inside
      simp only [Bool.false_eq_true, if_false]
      unfold continued at first
      cases result : (s.iterate iteration summary b).summary with
      | error e =>
        rw [result] at first
        exact first
      | ok counted =>
        rw [result] at first
        exact first.trans (ih (permits ▸ free))

theorem scan_reached (s : Scanner) (cancelled : Bool) :
    s.Reaches (.calm s.transformer) (s.start cancelled) (.ended (s.scan cancelled)) := by
  unfold start scan
  cases s.isOverbooked with
  | true => exact .refl
  | false =>
    apply iterations_reached
    have one : 1 ≤ max s.settings.maxConcurrentConfirmations.toNat 1 := Nat.le_max_right _ _
    simp only [firstBoard]
    omega

end Scanner

end TaintScan
