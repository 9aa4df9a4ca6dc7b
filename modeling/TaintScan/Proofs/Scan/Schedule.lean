import Mathlib.Data.List.Dedup
import TaintScan.Proofs.Scan.Accounting

namespace TaintScan

namespace Scanner

def withConcurrency (s : Scanner) (n : UInt64) : Scanner :=
  { s with settings := { s.settings with maxConcurrentConfirmations := n } }

/-- The plan of an iteration and what is detected in its output, unless the first run fails. -/
def firstRun? (s : Scanner) (iteration : Nat) : Option (Plan × List Detection) :=
  match s.planOf iteration with
  | .error _ => none
  | .ok plan =>
    match (s.execute plan).result with
    | .error _ => none
    | .ok run => some (plan, s.detections run)

def detectionsIn (s : Scanner) (iteration : Nat) : List (Plan × Detection) :=
  match s.firstRun? iteration with
  | none => []
  | some (plan, ds) => ds.map fun d => (plan, d)

def detectionsBefore (s : Scanner) (n : Nat) : List (Plan × Detection) :=
  (List.range n).flatMap s.detectionsIn

def failuresBefore (s : Scanner) (n : Nat) : Nat :=
  (List.range n).countP fun i => (s.firstRun? i).isNone

def Steady (s : Scanner) : Prop := ∀ document uri, (s.transformer document uri).cancels = false

variable {s : Scanner} {plan : Plan} {iteration n : Nat} {key : String × ObjectId}

theorem firstRun?_eq_some {ds : List Detection} : s.firstRun? iteration = some (plan, ds) ↔
    ∃ run, s.planOf iteration = .ok plan ∧ (s.execute plan).result = .ok run ∧
      s.detections run = ds := by
  unfold firstRun?
  cases planned : s.planOf iteration with
  | error e => simp
  | ok grown =>
    cases ran : (s.execute grown).result with
    | error e =>
      simp only [ran, reduceCtorEq, Except.ok.injEq, false_iff]
      rintro ⟨run, rfl, again, -⟩
      rw [ran] at again
      cases again
    | ok run =>
      simp only [ran, Option.some.injEq, Prod.mk.injEq, Except.ok.injEq]
      constructor
      · rintro ⟨rfl, rfl⟩
        exact ⟨run, rfl, ran, rfl⟩
      · rintro ⟨other, rfl, again, rfl⟩
        exact ⟨rfl, by rw [Outcome.unique again ran]⟩

theorem detectionsBefore_succ :
    s.detectionsBefore (n + 1) = s.detectionsBefore n ++ s.detectionsIn n := by
  simp [detectionsBefore, List.range_succ]

theorem failuresBefore_succ : s.failuresBefore (n + 1) =
    s.failuresBefore n + if (s.firstRun? n).isNone then 1 else 0 := by
  simp [failuresBefore, List.range_succ, List.countP_cons]

theorem Steady.execute (steady : s.Steady) (plan : Plan) : (s.execute plan).cancels = false := by
  unfold Scanner.execute
  split
  · rfl
  · exact steady _ _

theorem Wired.withConcurrency {concurrency : UInt64} (wired : s.Wired) (some : concurrency ≠ 0) :
    (s.withConcurrency concurrency).Wired := by
  have others := (ScanSettings.check_eq_ok.mp wired.settings).2
  exact ⟨wired.checked, wired.rooted, ScanSettings.check_eq_ok.mpr ⟨some, others⟩, wired.distinct⟩

end Scanner

theorem Board.isReported_report (b : Board) (f : Finding) (key : String × ObjectId) :
    (b.report f).isReported key = true ↔ b.isReported key = true ∨ key = f.reportKey := by
  simp [isReported_iff]

section Confirming

variable [Uri.Idna]

namespace Scanner

def isConfirming (s : Scanner) (p : Plan × Detection) : Bool :=
  match (s.confirm p.1 p.2).result with
  | .ok (some _) => true
  | _ => false

def confirmedKeys (s : Scanner) : List (String × ObjectId) :=
  (((s.detectionsBefore s.settings.iterations.toNat).filter s.isConfirming).map
    fun p => p.2.reportKey).dedup

def ConfirmsKey (s : Scanner) (n : Nat) (key : String × ObjectId) : Prop :=
  ∃ i < n, ∃ plan run d, s.planOf i = .ok plan ∧ (s.execute plan).result = .ok run ∧
    d ∈ s.detections run ∧ s.Confirms plan d ∧ d.reportKey = key

variable {s : Scanner} {plan : Plan} {iteration n : Nat} {key : String × ObjectId}

theorem isConfirming_iff {d : Detection} : s.isConfirming (plan, d) = true ↔ s.Confirms plan d := by
  rw [← confirm_eq_some, isConfirming]
  cases result : (s.confirm plan d).result with
  | error e => simp
  | ok settled => cases settled <;> simp

theorem confirmsKey_succ : s.ConfirmsKey (n + 1) key ↔ s.ConfirmsKey n key ∨
    ∃ plan ds d, s.firstRun? n = some (plan, ds) ∧ d ∈ ds ∧ s.Confirms plan d ∧
      d.reportKey = key := by
  constructor
  · rintro ⟨i, inside, plan, run, d, planned, ran, detected, confirms, same⟩
    rcases Nat.lt_succ_iff_lt_or_eq.mp inside with before | rfl
    · exact .inl ⟨i, before, plan, run, d, planned, ran, detected, confirms, same⟩
    · exact .inr ⟨plan, _, d, firstRun?_eq_some.mpr ⟨run, planned, ran, rfl⟩, detected, confirms, same⟩
  · rintro (⟨i, inside, rest⟩ | ⟨plan, ds, d, first, detected, confirms, same⟩)
    · exact ⟨i, Nat.lt_succ_of_lt inside, rest⟩
    · obtain ⟨run, planned, ran, rfl⟩ := firstRun?_eq_some.mp first
      exact ⟨n, Nat.lt_succ_self n, plan, run, d, planned, ran, detected, confirms, same⟩

theorem mem_confirmedKeys :
    key ∈ s.confirmedKeys ↔ s.ConfirmsKey s.settings.iterations.toNat key := by
  simp only [confirmedKeys, List.mem_dedup, List.mem_map, List.mem_filter, detectionsBefore,
    List.mem_flatMap, List.mem_range]
  constructor
  · rintro ⟨⟨plan, d⟩, ⟨⟨i, inside, detected⟩, confirms⟩, same⟩
    unfold detectionsIn at detected
    split at detected
    · cases detected
    · rename_i grown ds first
      obtain ⟨d', member, pair⟩ := List.mem_map.mp detected
      cases pair
      obtain ⟨run, planned, ran, rfl⟩ := firstRun?_eq_some.mp first
      exact ⟨i, inside, plan, run, d, planned, ran, member, isConfirming_iff.mp confirms, same⟩
  · rintro ⟨i, inside, plan, run, d, planned, ran, detected, confirms, same⟩
    have first := firstRun?_eq_some.mpr ⟨run, planned, ran, rfl⟩
    refine ⟨(plan, d), ⟨⟨i, inside, ?_⟩, isConfirming_iff.mpr confirms⟩, same⟩
    simp only [detectionsIn, first]
    exact List.mem_map_of_mem detected

theorem Steady.confirm (steady : s.Steady) (plan : Plan) (d : Detection) :
    (s.confirm plan d).cancels = false := by
  unfold Scanner.confirm
  split
  · rfl
  · exact steady.execute _

end Scanner

def Cycle.Follows (s : Scanner) (plan : Plan) (b : Board) (d : Detection) : Cycle → Prop
  | fresh d' => d' = d
  | queued d' => d' = d
  | permitted d' => d' = d
  | verified f => f.reportKey = d.reportKey ∧ s.Confirms plan d
  | ended .duplicate => b.isReported d.reportKey = true
  | ended .confirmed => b.isReported d.reportKey = true
  | ended .refuted => ¬ s.Confirms plan d
  | ended .cancelled => False
  | broken _ => True

namespace Cycle

variable {s : Scanner} {plan : Plan} {b b' : Board} {d : Detection} {c : Cycle}
  {result : Cycle × Board}

theorem Follows.mono (h : c.Follows s plan b d)
    (more : ∀ key, b.isReported key = true → b'.isReported key = true) : c.Follows s plan b' d := by
  cases c with
  | ended outcome =>
    cases outcome with
    | duplicate => exact more _ h
    | confirmed => exact more _ h
    | refuted => exact h
    | cancelled => exact h
  | fresh d' | queued d' | permitted d' | verified f | broken e => exact h

/-- What a step of a cycle does to the keys that are reported: nothing, or it adds the key of its
detection, which is confirmed. -/
theorem Taken.follows (h : Taken s plan b c result) (steady : s.Steady) (on : b.cancelled = false)
    (follows : c.Follows s plan b d) :
    result.1.Follows s plan result.2 d ∧ result.2.cancelled = false ∧
      (∀ key, b.isReported key = true → result.2.isReported key = true) ∧
      ∀ key, result.2.isReported key = true →
        b.isReported key = true ∨ key = d.reportKey ∧ s.Confirms plan d := by
  cases h with
  | known seen =>
    cases follows
    exact ⟨seen, on, fun _ => id, fun _ => .inl⟩
  | unknown unseen => exact ⟨follows, on, fun _ => id, fun _ => .inl⟩
  | withdrawn free off =>
    rw [on] at off
    cases off
  | admitted free _ => exact ⟨follows, on, fun _ => id, fun _ => .inl⟩
  | @failed d' e result =>
    exact ⟨trivial, by simp [on, steady.confirm plan d'], fun _ => id, fun _ => .inl⟩
  | @refuted d' result =>
    cases follows
    refine ⟨fun confirms => ?_, by simp [on, steady.confirm plan d], fun _ => id, fun _ => .inl⟩
    obtain ⟨f, found⟩ := Scanner.confirm_eq_some.mpr confirms
    rw [result] at found
    cases found
  | @found d' f result =>
    cases follows
    exact ⟨⟨Scanner.confirm_reportKey result, Scanner.confirm_eq_some.mp ⟨f, result⟩⟩,
      by simp [on, steady.confirm plan d], fun _ => id, fun _ => .inl⟩
  | repeated seen =>
    obtain ⟨same, confirms⟩ := follows
    rw [same] at seen
    exact ⟨seen, on, fun _ => id, fun _ => .inl⟩
  | @reported f unseen =>
    obtain ⟨same, confirms⟩ := follows
    refine ⟨?_, on, fun key seen => ?_, fun key seen => ?_⟩
    · exact (Board.isReported_report b f _).mpr (.inr same.symm)
    · exact (Board.isReported_report b f key).mpr (.inl seen)
    · rcases (Board.isReported_report b f key).mp seen with old | new
      · exact .inl old
      · exact .inr ⟨new.trans same, confirms⟩

end Cycle

namespace Scanner

/-- The counters of the iterations so far say what these iterations do on their own. -/
structure Counts (s : Scanner) (n : Nat) (summary : ScanSummary) : Prop where
  on : summary.cancelled = false
  failed : summary.failedIterations = s.failuresBefore n
  detected : summary.detections = (s.detectionsBefore n).length

/-- A scan breaks down in the first iteration with a text there is no room for. -/
structure FirstOverflow (s : Scanner) (i : Nat) : Prop where
  inside : i < s.settings.iterations.toNat
  here : s.OverflowsAt i
  first : ∀ j < i, ¬ s.OverflowsAt j

/-- What holds of a calm scan at every moment: its counters and its reports are those of the
iterations so far, and inside an iteration each cycle follows its detection. -/
def Follows (s : Scanner) : Progress → Prop
  | .ready left iteration summary b =>
    iteration + left = s.settings.iterations.toNat ∧ b.cancelled = false ∧
      (∀ i < iteration, ¬ s.OverflowsAt i) ∧
      s.Counts iteration summary ∧ ∀ key, b.isReported key = true ↔ s.ConfirmsKey iteration key
  | .confirming left iteration plan summary cycles b =>
    iteration + 1 + left = s.settings.iterations.toNat ∧ b.cancelled = false ∧
      (∀ i < iteration + 1, ¬ s.OverflowsAt i) ∧
      s.Counts (iteration + 1) summary ∧
      (∀ key, s.ConfirmsKey iteration key → b.isReported key = true) ∧
      (∀ key, b.isReported key = true → s.ConfirmsKey (iteration + 1) key) ∧
      ∃ ds, s.firstRun? iteration = some (plan, ds) ∧
        List.Forall₂ (Cycle.Follows s plan b) ds cycles
  | .ended ⟨.ok summary, b⟩ => s.isOverbooked = false ∧
      (∀ i < s.settings.iterations.toNat, ¬ s.OverflowsAt i) ∧
      s.Counts s.settings.iterations.toNat summary ∧
      ∀ key, b.isReported key = true ↔ s.ConfirmsKey s.settings.iterations.toNat key
  | .ended ⟨.error e, b⟩ => s.isOverbooked = true ∧ e = .breakdown .permits ∧ b.findings = [] ∨
      s.isOverbooked = false ∧ ∃ i, s.FirstOverflow i ∧ e = .breakdown .capacity ∧
        ∀ key, b.isReported key = true ↔ s.ConfirmsKey i key

variable {s : Scanner}

theorem launch_follows (wired : s.Wired) (steady : s.Steady) {left iteration : Nat}
    {summary : ScanSummary} {b : Board} (bookable : s.isOverbooked = false)
    (kept : s.Follows (.ready (left + 1) iteration summary b)) :
    s.Follows (s.launch left iteration summary b) := by
  obtain ⟨count, on, clear, counts, keys⟩ := kept
  have rest : iteration + 1 + left = s.settings.iterations.toNat := by omega
  by_cases overflows : s.OverflowsAt iteration
  · rw [launch_of_overflowsAt wired overflows]
    exact .inr ⟨bookable, iteration, ⟨by omega, overflows, clear⟩, rfl, keys⟩
  obtain ⟨plan, planned, -, -⟩ := wired.exists_planOf iteration
  have launched := (wired.launched_iff planned).mpr overflows
  have cleared : ∀ i < iteration + 1, ¬ s.OverflowsAt i := fun i before =>
    (Nat.lt_succ_iff_lt_or_eq.mp before).elim (clear i) fun same => same ▸ overflows
  have quiet : (b.cancelIf (s.execute plan).cancels).cancelled = false := by
    simp [on, steady.execute plan]
  simp only [launch, planned]
  cases ran : (s.execute plan).result with
  | error e =>
    have none : s.firstRun? iteration = none := by simp only [firstRun?, planned, ran]
    simp only [if_pos (execute_survivable launched.renders e ran)]
    refine ⟨rest, quiet, cleared, ⟨counts.on, ?_, ?_⟩, fun key => ?_⟩
    · rw [failuresBefore_succ, none, ← counts.failed]
      rfl
    · simp only [detectionsBefore_succ, detectionsIn, none, List.append_nil, ← counts.detected]
      rfl
    · have nothing : s.ConfirmsKey (iteration + 1) key ↔ s.ConfirmsKey iteration key := by
        simp [confirmsKey_succ, none]
      rw [nothing]
      exact keys key
  | ok run =>
    have first := firstRun?_eq_some.mpr ⟨run, planned, ran, rfl⟩
    refine ⟨rest, quiet, cleared, ⟨counts.on, ?_, ?_⟩, fun key => (keys key).mpr, fun key seen => ?_,
      s.detections run, first, ?_⟩
    · rw [failuresBefore_succ, first, ← counts.failed]
      rfl
    · simp only [detectionsBefore_succ, detectionsIn, first, List.length_append, List.length_map,
        ← counts.detected]
      rfl
    · exact confirmsKey_succ.mpr (.inl ((keys key).mp seen))
    · rw [List.forall₂_map_right_iff, List.forall₂_same]
      exact fun d _ => rfl

theorem Moves.follows (wired : s.Wired) (steady : s.Steady) {now next : Progress}
    (h : s.Moves (.calm s.transformer) now next) (intact : s.Intact now) (kept : s.Follows now) :
    s.Follows next := by
  cases h with
  | finish =>
    obtain ⟨count, on, clear, counts, keys⟩ := kept
    cases count
    exact ⟨intact.1, clear, counts, keys⟩
  | stop off =>
    obtain ⟨count, on, -⟩ := kept
    rw [on] at off
    cases off
  | launch answer on =>
    cases answer
    exact launch_follows wired steady intact.1 kept
  | @cycle left iteration plan summary before after c b t answer able =>
    cases answer
    obtain ⟨count, on, clear, counts, old, known, ds, first, cycles⟩ := kept
    have turned := List.Forall₂.flip (R := fun c d => Cycle.Follows s plan b d c) cycles
    obtain ⟨front, d, back, rfl, one, this, two⟩ := Outcome.forall₂_split turned
    obtain ⟨now, on', more, new⟩ := (Cycle.step_taken s plan able).follows steady on this
    refine ⟨count, on', clear, counts, fun key confirms => more key (old key confirms), fun key seen => ?_,
      front ++ d :: back, first, List.Forall₂.flip ?_⟩
    · rcases new key seen with before | ⟨rfl, confirms⟩
      · exact known key before
      · exact confirmsKey_succ.mpr (.inr ⟨plan, _, d, first, by simp, confirms, rfl⟩)
    · exact List.rel_append (one.imp fun _ _ h => h.mono more)
        (.cons now (two.imp fun _ _ h => h.mono more))
  | @join left iteration plan summary cycles b done =>
    obtain ⟨count, on, clear, counts, old, known, ds, first, all⟩ := kept
    cases tallied : Cycle.tally summary cycles with
    | error e =>
      -- No cycle of an intact scan is broken.
      have unbroken : ∀ c ∈ cycles, ∀ e, c ≠ .broken e := by
        rintro c member e rfl
        exact intact.2.2.2.2 _ member
      have some : ∃ counted, Cycle.tally summary cycles = .ok counted := Cycle.exists_tally unbroken
      obtain ⟨counted, fine⟩ := some
      rw [fine] at tallied
      cases tallied
    | ok counted =>
      obtain ⟨outcomes, rfl, rfl⟩ := Cycle.tally_eq_ok done tallied
      refine ⟨count, on, clear, ⟨?_, by simpa using counts.failed, by simpa using counts.detected⟩,
        fun key => ⟨known key, fun confirms => ?_⟩⟩
      · refine ScanSummary.countAll_cancelled.mpr ⟨counts.on, fun member => ?_⟩
        have turned := List.Forall₂.flip (R := fun c d => Cycle.Follows s plan b d c) all
        obtain ⟨d, -, impossible⟩ := Outcome.forall₂_exists turned (List.mem_map_of_mem member)
        exact impossible
      · -- A detection that is confirmed cannot have been refuted, and a duplicate is reported.
        rcases confirmsKey_succ.mp confirms with before | ⟨plan', ds', d, again, member, confirms, same⟩
        · exact old key before
        · rw [first] at again
          cases again
          obtain ⟨c, inside, follows⟩ := Outcome.forall₂_exists all member
          obtain ⟨outcome, -, rfl⟩ := List.mem_map.mp inside
          cases outcome with
          | duplicate => exact same ▸ follows
          | confirmed => exact same ▸ follows
          | refuted => exact absurd confirms follows
          | cancelled => exact follows.elim
  | cancelBetween asked on => cases asked
  | cancelWithin asked on => cases asked

theorem start_follows (s : Scanner) : s.Follows (s.start false) := by
  refine start_cases (fun excess => .inl ⟨excess, rfl, rfl⟩) fun _ => ?_
  refine ⟨Nat.zero_add _, rfl, nofun, ⟨rfl, rfl, rfl⟩, fun key => ⟨nofun, ?_⟩⟩
  rintro ⟨i, inside, -⟩
  cases inside

/-- The end of a scan that runs as its iterations do on their own: a key is reported exactly when
some detection of an iteration that has not failed is confirmed under it. How the other detections
divide into duplicates and refuted ones is left open. -/
structure EndsAs (s : Scanner) (summary : ScanSummary) (b : Board) : Prop where
  reported : ∀ key, key ∈ b.findings.map Finding.reportKey ↔
    s.ConfirmsKey s.settings.iterations.toNat key
  keys : (b.findings.map Finding.reportKey).Perm s.confirmedKeys
  on : summary.cancelled = false
  iterations : summary.iterations = s.settings.iterations.toNat
  failed : summary.failedIterations = s.failuresBefore s.settings.iterations.toNat
  detected : summary.detections = (s.detectionsBefore s.settings.iterations.toNat).length
  confirmed : summary.confirmed = s.confirmedKeys.length
  others : summary.duplicates + summary.refuted + s.confirmedKeys.length =
    (s.detectionsBefore s.settings.iterations.toNat).length

theorem endsAs_of_follows {summary : ScanSummary} {b : Board}
    (follows : s.Follows (.ended ⟨.ok summary, b⟩))
    (accounts : (Progress.ended ⟨.ok summary, b⟩).Accounts s.settings.iterations.toNat) :
    s.EndsAs summary b := by
  obtain ⟨-, -, counts, keys⟩ := follows
  obtain ⟨agrees, -, all⟩ := accounts summary rfl
  have reported : ∀ key, key ∈ b.findings.map Finding.reportKey ↔
      s.ConfirmsKey s.settings.iterations.toNat key := by
    intro key
    rw [← Board.isReported_iff]
    exact keys key
  have perm : (b.findings.map Finding.reportKey).Perm s.confirmedKeys := by
    apply (List.perm_ext_iff_of_nodup agrees.distinct (List.nodup_dedup _)).mpr
    intro key
    exact (reported key).trans mem_confirmedKeys.symm
  have confirmed : summary.confirmed = s.confirmedKeys.length := by
    rw [← perm.length_eq, List.length_map]
    exact agrees.confirmed
  have settled := agrees.exact counts.on
  have others : summary.duplicates + summary.refuted + s.confirmedKeys.length =
      (s.detectionsBefore s.settings.iterations.toNat).length := by
    rw [← counts.detected, ← confirmed]
    simp only [ScanSummary.settled] at settled
    omega
  exact ⟨reported, perm, counts.on, all counts.on, counts.failed, counts.detected, confirmed, others⟩

/-- How a calm scan ends: refused, since there cannot be so many permits, or broken down in an
iteration, with what the iterations before confirm, or as its iterations do on their own. -/
inductive EndsUnder (s : Scanner) (concurrency : UInt64) : ScanResult → Prop
  | refused {b : Board} (excess : Breakdown.mostPermits < concurrency.toNat) (nothing : b.findings = []) :
    EndsUnder s concurrency ⟨.error (.breakdown .permits), b⟩
  | overflowed {b : Board} {i : Nat} (bookable : concurrency.toNat ≤ Breakdown.mostPermits)
    (overflow : s.FirstOverflow i)
    (reported : ∀ key, key ∈ b.findings.map Finding.reportKey ↔ s.ConfirmsKey i key) :
    EndsUnder s concurrency ⟨.error (.breakdown .capacity), b⟩
  | counted {summary : ScanSummary} {b : Board} (bookable : concurrency.toNat ≤ Breakdown.mostPermits)
    (clear : ∀ i < s.settings.iterations.toNat, ¬ s.OverflowsAt i) (ends : s.EndsAs summary b) :
    EndsUnder s concurrency ⟨.ok summary, b⟩

theorem run_endsUnder (wired : s.Wired) (steady : s.Steady) {final : Progress}
    (run : s.Reaches (.calm s.transformer) (s.start false) final)
    (stuck : ∀ next, ¬ s.Moves (.calm s.transformer) final next) :
    ∃ result, final = .ended result ∧ s.EndsUnder s.settings.maxConcurrentConfirmations result := by
  have follows : s.Intact final ∧ s.Follows final :=
    run.keeps (fun now => s.Intact now ∧ s.Follows now) ⟨start_intact s false, start_follows s⟩
      fun _ _ move kept => ⟨move.intact wired kept.1, move.follows wired steady kept.1 kept.2⟩
  have accounts : final.Accounts s.settings.iterations.toNat :=
    run.keeps (Progress.Accounts _) (start_accounts s false) fun _ _ move kept => move.accounts kept
  have bookable : s.isOverbooked = false ↔
      s.settings.maxConcurrentConfirmations.toNat ≤ Breakdown.mostPermits := by simp [isOverbooked]
  rcases ended_cases wired rfl run with ⟨summary, b, rfl⟩ | ⟨cause, b, -, rfl⟩ | ⟨next, move⟩
  · obtain ⟨fine, clear, -⟩ := follows.2
    exact ⟨_, rfl, .counted (bookable.mp fine) clear (endsAs_of_follows follows.2 accounts)⟩
  · rcases follows.2 with ⟨excess, permits, nothing⟩ | ⟨fine, i, overflow, capacity, keys⟩
    · cases permits
      exact ⟨_, rfl, .refused (of_decide_eq_true excess) nothing⟩
    · cases capacity
      refine ⟨_, rfl, .overflowed (bookable.mp fine) overflow fun key => ?_⟩
      rw [← Board.isReported_iff]
      exact keys key
  · exact absurd move (stuck next)

/-- A calm scan ends alike in whatever order its cycles take their steps and however many
confirmations there are at a time, unless that is more than there can be. -/
theorem scan_schedule_independent (wired : s.Wired) (steady : s.Steady) {concurrency : UInt64}
    (some : concurrency ≠ 0) :
    (s.withConcurrency concurrency).Reaches (.calm s.transformer)
      ((s.withConcurrency concurrency).start false) (.ended ((s.withConcurrency concurrency).scan false)) ∧
    ∀ final, (s.withConcurrency concurrency).Reaches (.calm s.transformer)
        ((s.withConcurrency concurrency).start false) final →
      (∀ next, ¬ (s.withConcurrency concurrency).Moves (.calm s.transformer) final next) →
      ∃ result, final = .ended result ∧ s.EndsUnder concurrency result := by
  refine ⟨scan_reached (s.withConcurrency concurrency) false, fun final run stuck => ?_⟩
  obtain ⟨result, rfl, ends⟩ := run_endsUnder (wired.withConcurrency some) steady run stuck
  refine ⟨result, rfl, ?_⟩
  cases ends with
  | refused excess nothing => exact .refused excess nothing
  | overflowed bookable overflow reported =>
    exact .overflowed bookable ⟨overflow.inside, overflow.here, overflow.first⟩ reported
  | counted bookable clear ends =>
    exact .counted bookable clear ⟨ends.reported, ends.keys, ends.on, ends.iterations, ends.failed,
      ends.detected, ends.confirmed, ends.others⟩

theorem ended_stuck {around : Surroundings} (result : ScanResult) (next : Progress) :
    ¬ s.Moves around (.ended result) next := by
  intro move
  cases move

end Scanner

end Confirming

namespace Scanner

section Trial

attribute [local instance] Uri.Idna.plain

theorem naming_steady : naming.Steady := fun _ _ => rfl

theorem detectionsIn_naming (i : Nat) : ∃ plan d, naming.detectionsIn i = [(plan, d)] ∧
    naming.isConfirming (plan, d) = true ∧ d.reportKey = namedKey := by
  obtain ⟨seed, own, id, planned⟩ := planOf_naming i
  obtain ⟨run, d, f, executed, detected, confirmed, key, -⟩ := naming_confirms seed own id
  have first := firstRun?_eq_some.mpr ⟨run, planned, congrArg Attempt.result executed, detected⟩
  have confirms := confirm_eq_some.mp ⟨f, congrArg Attempt.result confirmed⟩
  exact ⟨_, d, by rw [detectionsIn, first]; rfl, isConfirming_iff.mpr confirms, key⟩

theorem confirmedKeys_naming : naming.confirmedKeys = [namedKey] := by
  obtain ⟨plan, d, first, confirms, key⟩ := detectionsIn_naming 0
  obtain ⟨plan', d', second, confirms', key'⟩ := detectionsIn_naming 1
  have all : naming.detectionsBefore 2 = [(plan, d), (plan', d')] := by
    rw [detectionsBefore_succ, detectionsBefore_succ, first, second]
    rfl
  have two : naming.settings.iterations.toNat = 2 := rfl
  rw [confirmedKeys, two, all, List.filter_cons_of_pos confirms, List.filter_cons_of_pos confirms']
  simp [key, key']

theorem detectionsBefore_naming : (naming.detectionsBefore 2).length = 2 := by
  obtain ⟨plan, d, first, -⟩ := detectionsIn_naming 0
  obtain ⟨plan', d', second, -⟩ := detectionsIn_naming 1
  rw [detectionsBefore_succ, detectionsBefore_succ, first, second]
  rfl

theorem scan_schedule_independent_naming : naming.Wired ∧ naming.Steady ∧ ∃ summary b,
    (naming.withConcurrency 2).scan false = ⟨.ok summary, b⟩ ∧ naming.EndsAs summary b ∧
      summary.detections = 2 ∧ summary.confirmed = 1 ∧
      ∀ key, key ∈ b.findings.map Finding.reportKey ↔ key = namedKey := by
  obtain ⟨run, all⟩ := @scan_schedule_independent _ naming naming_wired naming_steady 2 (by decide)
  obtain ⟨result, same, ends⟩ := all _ run (ended_stuck _)
  refine ⟨naming_wired, naming_steady, ?_⟩
  have ended : (naming.withConcurrency 2).scan false = result := Progress.ended.inj same
  cases ends with
  | refused excess nothing => exact absurd excess (by decide)
  | overflowed bookable overflow reported =>
    exact absurd overflow.here (not_overflowsAt naming_wired (by decide) _)
  | @counted summary b bookable clear ends =>
    have detected : summary.detections = 2 := ends.detected.trans detectionsBefore_naming
    have confirmed : summary.confirmed = 1 := ends.confirmed.trans (by rw [confirmedKeys_naming]; rfl)
    refine ⟨summary, b, ended, ends, detected, confirmed, fun key => ?_⟩
    rw [ends.keys.mem_iff, confirmedKeys_naming, List.mem_singleton]

theorem scan_not_always_independent : naming.Wired ∧ naming.Steady ∧ naming.confirmedKeys = [namedKey] ∧
    (naming.withConcurrency 2305843009213693952).Wired ∧
    (naming.withConcurrency 2305843009213693952).scan false =
      ⟨.error (.breakdown .permits), ⟨[], 2305843009213693952, false⟩⟩ := by
  have excess : (naming.withConcurrency 2305843009213693952).isOverbooked = true := by decide
  refine ⟨naming_wired, naming_steady, confirmedKeys_naming, naming_wired.withConcurrency (by decide), ?_⟩
  rw [scan, if_pos excess]
  rfl

end Trial

end Scanner

end TaintScan
