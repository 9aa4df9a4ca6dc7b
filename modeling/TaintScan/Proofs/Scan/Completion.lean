import TaintScan.Proofs.Plan.Growing
import TaintScan.Proofs.Scan.Confirmation
import TaintScan.Proofs.Scan.Sequence
import TaintScan.Proofs.Scan.Tally
import TaintScan.Proofs.Scan.Termination
import TaintScan.Proofs.Taint.Tracking

namespace TaintScan

open Synthesis (FirstBreak)

/-- The detection of a cycle that still has to run is grounded, and no cycle is broken. -/
def Cycle.Intact (e : Engine) (plan : Plan) : Cycle → Prop
  | fresh d => d.Grounded e plan
  | queued d => d.Grounded e plan
  | permitted d => d.Grounded e plan
  | verified _ => True
  | ended _ => True
  | broken _ => False

structure ScanSettings.Numbers (s : ScanSettings) : Prop where
  optional : s.generation.optionalAttributeProbability.isNaN = false
  raw : s.generation.rawContentProbability.isNaN = false
  fresh : s.values.freshValueProbability.isNaN = false

theorem ScanSettings.isNaN_of_checkProbability {name : String} {p : Float}
    (h : checkProbability name p = .ok ()) : p.isNaN = false := by
  unfold checkProbability at h
  split at h
  · rename_i within
    simp only [Bool.and_eq_true, decide_eq_true_eq] at within
    exact (Random.isNaN_of_le within.1).2
  · cases h

theorem ScanSettings.check_eq_ok {s : ScanSettings} : s.check = .ok () ↔
    s.maxConcurrentConfirmations ≠ 0 ∧ s.transformTimeout ≠ 0 ∧
      checkProbability "optional_attribute_probability" s.generation.optionalAttributeProbability = .ok () ∧
      checkProbability "raw_content_probability" s.generation.rawContentProbability = .ok () ∧
      checkProbability "fresh_value_probability" s.values.freshValueProbability = .ok () := by
  simp only [check]
  by_cases none : s.maxConcurrentConfirmations = 0
  · rw [if_pos none]
    exact iff_of_false nofun fun h => h.1 none
  · rw [if_neg none]
    by_cases late : s.transformTimeout = 0
    · rw [if_pos late]
      exact iff_of_false nofun fun h => h.2.1 late
    · rw [if_neg late]
      simp only [Outcome.bind_eq_ok, ne_eq, none, late, not_false_eq_true, true_and]
      constructor
      · rintro ⟨_, optional, _, raw, fresh⟩
        exact ⟨optional, raw, fresh⟩
      · rintro ⟨optional, raw, fresh⟩
        exact ⟨(), optional, (), raw, fresh⟩

theorem ScanSettings.numbers_of_check {s : ScanSettings} (checked : s.check = .ok ()) : s.Numbers := by
  obtain ⟨-, -, optional, raw, fresh⟩ := check_eq_ok.mp checked
  exact ⟨isNaN_of_checkProbability optional, isNaN_of_checkProbability raw,
    isNaN_of_checkProbability fresh⟩

theorem ScanSettings.Numbers.not_undecided {s : ScanSettings} (numbers : s.Numbers)
    (schema : Schema) : ¬ s.generation.Undecided schema := by
  rintro (⟨odd, -⟩ | ⟨odd, -⟩)
  · rw [numbers.optional] at odd
    cases odd
  · rw [numbers.raw] at odd
    cases odd

namespace Scanner

/-- The schema and the settings are checked, there is a root, and the value rules of each plan have
distinct identities. -/
structure Wired (s : Scanner) : Prop where
  checked : s.schema.check = .ok ()
  rooted : s.schema.rootElements ≠ []
  settings : s.settings.check = .ok ()
  distinct : ∀ i < s.settings.iterations.toNat, ∀ plan, s.planOf i = .ok plan →
    (plan.valueRules.map ValueRule.id).Nodup

/-- There is no room for a text in the document of an iteration. -/
def OverflowsAt (s : Scanner) (iteration : Nat) : Prop := ∃ plan, s.planOf iteration = .ok plan ∧
  FirstBreak (Document.contextOf s.schema s.marker s.settings.values plan) plan.valueRules .capacity

/-- Why a scan may break down: more permits are asked for than there can be, or there is no room for
a text of some iteration. -/
def BreaksDown (s : Scanner) : Breakdown → Prop
  | .permits => s.isOverbooked = true
  | .capacity => s.isOverbooked = false ∧ ∃ i < s.settings.iterations.toNat, s.OverflowsAt i
  | .probability => False

/-- The confirmation of a detection can fail by a collaborator only: the plan takes the replacement
and is rendered, the rule that made the detection is found, and the candidate may take each step. -/
structure Confirmable (s : Scanner) (plan : Plan) (d : Detection) : Prop where
  begins : ∃ confirmation, d.apply plan = .ok confirmation ∧ s.Renders confirmation ∧
    (Candidate.ofDetection d).begin plan = .ok (confirmation, ⟨d, .awaiting⟩)
  ruled : ∃ rule, s.engine.rule d.analyzerRule = .ok rule
  resolves : ∀ v, ∃ settled, (⟨d, .awaiting⟩ : Candidate).resolve v = .ok settled

def Intact (s : Scanner) : Progress → Prop
  | .ready left iteration _ _ =>
    s.isOverbooked = false ∧ iteration + left = s.settings.iterations.toNat
  | .confirming left iteration plan _ cycles _ =>
    s.isOverbooked = false ∧ iteration + (left + 1) = s.settings.iterations.toNat ∧
      s.planOf iteration = .ok plan ∧ s.Launched plan ∧ ∀ c ∈ cycles, c.Intact s.engine plan
  | .ended result => (∃ summary, result.summary = .ok summary) ∨
    ∃ cause, s.BreaksDown cause ∧ result.summary = .error (.breakdown cause)

variable {s : Scanner} {plan : Plan} {around : Surroundings} {iteration : Nat}

theorem Wired.exists_planOf (wired : s.Wired) (iteration : Nat) :
    ∃ plan, s.planOf iteration = .ok plan ∧ plan.Fits s.schema ∧ Unrequested plan.valueRules := by
  have sound := Schema.sound_of_check wired.checked
  have decided := (ScanSettings.numbers_of_check wired.settings).not_undecided s.schema
  obtain ⟨plan, rest, grown⟩ := Plan.exists_generate_of_decided decided s.settings.contentMode sound
    wired.rooted (.ofSeed (s.seedOf iteration))
  exact ⟨plan, by rw [planOf, grown]; rfl, Plan.generate_fits sound grown,
    (Plan.generate_unrequested grown).1⟩

theorem Wired.launched_iff (wired : s.Wired) (planned : s.planOf iteration = .ok plan) :
    s.Launched plan ↔ ¬ s.OverflowsAt iteration := by
  obtain ⟨other, grown, fits, free⟩ := wired.exists_planOf iteration
  obtain rfl := Outcome.unique grown planned
  constructor
  · rintro launched ⟨same, again, broken⟩
    obtain rfl := Outcome.unique again planned
    exact Document.Renders.not_firstBreak launched.renders broken
  · intro room
    refine ⟨fits, free, (Document.renders_of_fits fits s.marker s.settings.values).resolve_right ?_⟩
    rintro ⟨cause, broken, -⟩
    obtain rfl := broken.eq_capacity (ScanSettings.numbers_of_check wired.settings).fresh
    exact room ⟨other, planned, broken⟩

theorem detections_grounded {run : Document × Output} (rendered : s.render plan = .ok run.1) :
    ∀ d ∈ s.detections run, d.Grounded s.engine plan := fun _ member =>
  Engine.analyze_grounded rendered member

theorem confirmable_of_grounded (launched : s.Launched plan)
    (distinct : (plan.valueRules.map ValueRule.id).Nodup) {d : Detection}
    (grounded : d.Grounded s.engine plan) : s.Confirmable plan d := by
  obtain ⟨confirmation, applied⟩ := grounded.exists_apply distinct
  have renders : s.Renders confirmation := launched.renders_of_apply applied
  exact ⟨⟨confirmation, applied, renders, Candidate.begin_of_apply applied⟩, grounded.exists_rule,
    fun v => ⟨_, Candidate.resolve_awaiting v⟩⟩

theorem taken_intact [Uri.Idna] (launched : s.Launched plan)
    (distinct : (plan.valueRules.map ValueRule.id).Nodup) {b : Board} {c : Cycle}
    {result : Cycle × Board} (taken : Cycle.Taken s plan b c result)
    (intact : c.Intact s.engine plan) : result.1.Intact s.engine plan := by
  cases taken with
  | known | withdrawn | refuted | found | repeated | reported => trivial
  | unknown | admitted => exact intact
  | failed result =>
    -- The confirmation of a grounded detection settles, so the error is impossible.
    obtain ⟨settled, confirmed⟩ := exists_confirm launched distinct intact
    rw [result] at confirmed
    cases confirmed

theorem launch_of_overflowsAt {left : Nat} {summary : ScanSummary} {b : Board} (wired : s.Wired)
    (overflows : s.OverflowsAt iteration) :
    s.launch left iteration summary b = .ended ⟨.error (.breakdown .capacity), b⟩ := by
  obtain ⟨plan, planned, broken⟩ := overflows
  obtain ⟨other, grown, fits, -⟩ := wired.exists_planOf iteration
  obtain rfl := Outcome.unique grown planned
  have failed : s.render other = .error (.breakdown .capacity) :=
    Document.render_of_firstBreak fits broken s.settings.limits
  simp only [launch, planned, execute, failed, Board.cancelIf_false]
  rfl

theorem launch_intact (wired : s.Wired) {left : Nat} {summary : ScanSummary} {b : Board}
    (bookable : s.isOverbooked = false)
    (kept : iteration + (left + 1) = s.settings.iterations.toNat) :
    s.Intact (s.launch left iteration summary b) := by
  by_cases overflows : s.OverflowsAt iteration
  · rw [launch_of_overflowsAt wired overflows]
    exact .inr ⟨.capacity, ⟨bookable, iteration, by omega, overflows⟩, rfl⟩
  · obtain ⟨plan, planned, -, -⟩ := wired.exists_planOf iteration
    have launched := (wired.launched_iff planned).mpr overflows
    simp only [launch, planned]
    split
    · rename_i e failed
      rw [if_pos (execute_survivable launched.renders e failed)]
      have rest : iteration + 1 + left = s.settings.iterations.toNat := by omega
      exact ⟨bookable, rest⟩
    · rename_i run ran
      refine ⟨bookable, kept, planned, launched, fun c member => ?_⟩
      obtain ⟨d, detected, rfl⟩ := List.mem_map.mp member
      exact detections_grounded (execute_eq_ok ran) d detected

theorem Intact.of_answeredBy {t : Transformer} {now : Progress} (h : (s.answeredBy t).Intact now) :
    s.Intact now := by
  cases now with
  | ready left iteration summary b => exact h
  | confirming left iteration plan summary cycles b =>
    obtain ⟨bookable, count, planned, launched, cycles⟩ := h
    exact ⟨bookable, count, planned, ⟨launched.fits, launched.free, launched.renders⟩, cycles⟩
  | ended result =>
    rcases h with done | ⟨cause, breaks, failed⟩
    · exact .inl done
    · have same : s.BreaksDown cause := by cases cause <;> exact breaks
      exact .inr ⟨cause, same, failed⟩

theorem Moves.intact [Uri.Idna] (wired : s.Wired) {now next : Progress} (h : s.Moves around now next)
    (kept : s.Intact now) : s.Intact next := by
  cases h with
  | finish => exact .inl ⟨_, rfl⟩
  | stop off => exact .inl ⟨_, rfl⟩
  | @launch left iteration summary b t answer on =>
    have same : (s.answeredBy t).Wired :=
      ⟨wired.checked, wired.rooted, wired.settings, wired.distinct⟩
    exact (launch_intact same kept.1 kept.2).of_answeredBy
  | @cycle left iteration plan summary before after c b t answer able =>
    obtain ⟨bookable, count, planned, launched, cycles⟩ := kept
    have distinct := wired.distinct iteration (by omega) plan planned
    have same : (s.answeredBy t).Launched plan := ⟨launched.fits, launched.free, launched.renders⟩
    simp only [List.forall_mem_append, List.forall_mem_cons] at cycles
    have taken := Cycle.step_taken (s.answeredBy t) plan able
    have intact := taken_intact same distinct taken cycles.2.1
    refine ⟨bookable, count, planned, launched, ?_⟩
    simp only [List.forall_mem_append, List.forall_mem_cons]
    exact ⟨cycles.1, intact, cycles.2.2⟩
  | @join left iteration plan summary cycles b done =>
    obtain ⟨bookable, count, planned, -, intact⟩ := kept
    have unbroken : ∀ c ∈ cycles, ∀ e, c ≠ .broken e := by
      rintro c member e rfl
      exact intact _ member
    have tally : ∃ counted, Cycle.tally summary cycles = .ok counted := Cycle.exists_tally unbroken
    obtain ⟨counted, tallied⟩ := tally
    have rest : iteration + 1 + left = s.settings.iterations.toNat := by omega
    rw [tallied]
    exact ⟨bookable, rest⟩
  | cancelBetween asked on => exact kept
  | cancelWithin asked on => exact kept

theorem start_intact (s : Scanner) (cancelled : Bool) : s.Intact (s.start cancelled) :=
  start_cases (fun excess => .inr ⟨.permits, excess, rfl⟩) fun bookable => ⟨bookable, Nat.zero_add _⟩

theorem reaches_intact [Uri.Idna] (wired : s.Wired) {cancelled : Bool} {now : Progress}
    (run : s.Reaches around (s.start cancelled) now) : s.Intact now :=
  run.keeps s.Intact (start_intact s cancelled) fun _ _ move kept => move.intact wired kept

theorem ended_cases [Uri.Idna] (wired : s.Wired) {cancelled : Bool} {t : Transformer}
    (answer : around.answers t) {now : Progress} (run : s.Reaches around (s.start cancelled) now) :
    (∃ summary b, now = .ended ⟨.ok summary, b⟩) ∨
      (∃ cause b, s.BreaksDown cause ∧ now = .ended ⟨.error (.breakdown cause), b⟩) ∨
      ∃ next, s.Moves around now next := by
  have some : max s.settings.maxConcurrentConfirmations.toNat 1 ≠ 0 := by omega
  rcases ended_or_moves answer some (reaches_keepsPermits run) with ⟨⟨_, b⟩, rfl⟩ | moves
  · rcases reaches_intact wired run with ⟨summary, rfl⟩ | ⟨cause, breaks, rfl⟩
    · exact .inl ⟨summary, b, rfl⟩
    · exact .inr (.inl ⟨cause, b, breaks, rfl⟩)
  · exact .inr (.inr moves)

theorem scan_cases [Uri.Idna] (wired : s.Wired) (cancelled : Bool) :
    (∃ summary, (s.scan cancelled).summary = .ok summary) ∨
      ∃ cause, s.BreaksDown cause ∧ (s.scan cancelled).summary = .error (.breakdown cause) :=
  reaches_intact wired (scan_reached s cancelled)

theorem not_overflowsAt (wired : s.Wired)
    (room : Synthesis.suffixLength s.marker s.settings.values ≤ Breakdown.mostBytes) (iteration : Nat) :
    ¬ s.OverflowsAt iteration := fun ⟨_, _, broken⟩ =>
  broken.false_of_room (ScanSettings.numbers_of_check wired.settings).fresh room

/-- A scan comes to an end, whatever its transform engine answers and in whatever order its cycles
run, and the end gives the counters, unless the settings ask for more permits than there can be or for
a text there is no room for: then it breaks down at once, or in an iteration with such a text. -/
theorem scan_completes [Uri.Idna] (wired : s.Wired) (cancelled : Bool) :
    (s.Reaches .hostile (s.start cancelled) (.ended (s.scan cancelled)) ∧
      WellFounded fun next now => s.Moves .hostile now next) ∧
    (∀ now, s.Reaches .hostile (s.start cancelled) now →
      (∃ summary b, now = .ended ⟨.ok summary, b⟩) ∨
        (∃ cause b, s.BreaksDown cause ∧ now = .ended ⟨.error (.breakdown cause), b⟩) ∨
        ∃ next, s.Moves .hostile now next) ∧
    ((∀ cause, ¬ s.BreaksDown cause) → ∃ summary, (s.scan cancelled).summary = .ok summary) ∧
    (s.settings.maxConcurrentConfirmations.toNat ≤ Breakdown.mostPermits →
      Synthesis.suffixLength s.marker s.settings.values ≤ Breakdown.mostBytes →
        ∀ cause, ¬ s.BreaksDown cause) ∧
    (s.BreaksDown .permits →
      s.scan cancelled = ⟨.error (.breakdown .permits), s.firstBoard cancelled⟩) ∧
    (∀ i, s.OverflowsAt i → ∀ left summary b,
      s.launch left i summary b = .ended ⟨.error (.breakdown .capacity), b⟩) ∧
    (∀ i < s.settings.iterations.toNat, ∃ plan, s.planOf i = .ok plan ∧
      (s.Renders plan ↔ ¬ s.OverflowsAt i) ∧
      ∀ run, s.render plan = .ok run.1 → ∀ d ∈ s.detections run, s.Confirmable plan d) ∧
    ∀ text e, Output.parse text = .error e → e.isCollaboratorFailure = true := by
  refine ⟨⟨(scan_reached s cancelled).hostile, moves_wellFounded s .hostile⟩, fun now run => ?_, fun sound => ?_,
    fun permits room cause => ?_, fun excess => ?_, fun i overflows left summary b => ?_,
    fun i inside => ?_, fun text e failed => ?_⟩
  · exact ended_cases wired (t := s.transformer) trivial run
  · exact (scan_cases wired cancelled).resolve_right fun ⟨cause, breaks, _⟩ => sound cause breaks
  · cases cause with
    | permits => simpa [BreaksDown, isOverbooked] using permits
    | capacity => exact fun ⟨_, i, _, overflows⟩ => not_overflowsAt wired room i overflows
    | probability => exact id
  · have asked : s.isOverbooked = true := excess
    rw [scan, if_pos asked]
  · exact launch_of_overflowsAt wired overflows
  · obtain ⟨plan, planned, fits, free⟩ := wired.exists_planOf i
    have launched := wired.launched_iff planned
    refine ⟨plan, planned, ⟨fun renders => launched.mp ⟨fits, free, renders⟩,
      fun room => (launched.mpr room).renders⟩, fun run rendered d detected => ?_⟩
    have room : ¬ s.OverflowsAt i := by
      rintro ⟨same, again, broken⟩
      obtain rfl := Outcome.unique again planned
      exact nomatch rendered.symm.trans (Document.render_of_firstBreak fits broken s.settings.limits)
    have distinct := wired.distinct i inside plan planned
    exact confirmable_of_grounded (launched.mpr room) distinct (detections_grounded rendered d detected)
  · obtain ⟨fault, rfl⟩ := Output.parse_error failed
    rfl

section Trial

attribute [local instance] Uri.Idna.plain

open Document (assemble elementPiece unbound)
open Plan (RootChoice)
open Plan.Grow (Yields)
open Synthesis (Context describe)
open TaintScan.Random (Always Gives Source)

variable {seed : UInt64} {own id : RuleId} {requested : Option String}
  {kept : OrderedMap ObjectId String} {d : Descriptor}

def itemType : ElementType := .ofData ⟨⟨1⟩⟩ "item" (.withMaxLength .anyText 7)

def itemSchema : Schema := ⟨"item.xsl", 1, [itemType], [itemType.reference ⟨⟨2⟩⟩ "item"], [], []⟩

def itemPlan (seed : UInt64) (own id : RuleId) (requested : Option String)
    (kept : OrderedMap ObjectId String) : Plan :=
  ⟨"item.xsl", 1, seed, ⟨own, ⟨⟨2⟩⟩, [], [.data ⟨id, ⟨⟨1⟩⟩, requested⟩]⟩, [], [], kept⟩

theorem item_grown (settings : GenerationSettings) (mode : RawMode) :
    Yields False (Plan.grow itemSchema settings mode .uniform) fun plan =>
      ∃ seed own id, plan = itemPlan seed own id none .empty := by
  have picks : Always (RootChoice.uniform.pick itemSchema.rootElements) fun r =>
      ∃ root ∈ itemSchema.rootElements, r = some root := Random.choose?_mem (by decide)
  refine .bind (.draw (.trivial _)) fun seed _ => .bind (.draw picks) fun picked root => ?_
  obtain ⟨reference, member, rfl⟩ := root
  obtain rfl : reference = itemType.reference ⟨⟨2⟩⟩ "item" := by simpa [itemSchema] using member
  have inside : ∀ expand, Yields False (Plan.growContent settings mode expand itemType) fun content =>
      ∃ id, content = [.data ⟨id, ⟨⟨1⟩⟩, none⟩] := fun _ => .bind .ruleId fun id _ => .pure ⟨id, rfl⟩
  have leads : itemSchema.referencedType (itemType.reference ⟨⟨2⟩⟩ "item") = .ok itemType := rfl
  have tree : ∀ budget, Yields False (Plan.growElement itemSchema settings mode (budget + 1)
      (itemType.reference ⟨⟨2⟩⟩ "item")) fun e =>
        ∃ own id, e = ⟨own, ⟨⟨2⟩⟩, [], [.data ⟨id, ⟨⟨1⟩⟩, none⟩]⟩ := by
    intro budget
    unfold Plan.growElement
    simp only [leads]
    refine .bind .countElement fun _ _ => .bind .ruleId fun own _ => ?_
    refine .bind (.pure (P := (· = [])) rfl) fun attributes none => ?_
    refine .bind (inside _) fun content data => .pure ?_
    obtain ⟨id, rfl⟩ := data
    subst none
    exact ⟨own, id, rfl⟩
  refine .bind (tree _) fun e item => ?_
  refine .bind (.pure (P := (· = [])) rfl) fun functions fs => ?_
  refine .bind (.pure (P := (· = [])) rfl) fun parameters ps => .pure ?_
  obtain ⟨own, id, rfl⟩ := item
  subst fs ps
  exact ⟨seed, own, id, rfl⟩

def naming : Scanner where
  settings := { ScanSettings.standard with iterations := 2 }
  schema := itemSchema
  engine := .standard .standard
  marker := ⟨"tracked", 7, by decide, by decide⟩
  transformer document _ :=
    let name := (document.xml.toList.drop 44).takeWhile (· != '<')
    ⟨.output (String.ofList ('<' :: name ++ ['/', '>'])), false⟩

theorem planOf_naming (i : Nat) :
    ∃ seed own id, naming.planOf i = .ok (itemPlan seed own id none .empty) := by
  have sound := @Schema.sound_of_check itemSchema rfl
  have decided : ¬ naming.settings.generation.Undecided itemSchema :=
    (@ScanSettings.numbers_of_check naming.settings rfl).not_undecided itemSchema
  obtain ⟨plan, rest, made⟩ := Plan.exists_generate_of_decided decided naming.settings.contentMode sound
    (by decide) (.ofSeed (naming.seedOf i))
  obtain ⟨seed, own, id, rfl⟩ := Plan.generate_yields (item_grown _ _) made
  have planned := congrArg (Except.map Prod.fst) made
  exact ⟨seed, own, id, planned⟩

theorem naming_wired : naming.Wired := by
  refine ⟨rfl, by decide, rfl, fun i _ plan planned => ?_⟩
  obtain ⟨seed, own, id, made⟩ := planOf_naming i
  obtain rfl := Outcome.unique made planned
  exact List.nodup_singleton _

theorem drawValue_of_stem {m : Marker} {settings : ValueSettings} {c : DataConstraint} {n : UInt64}
    (type : c.dataType = .string) (unlisted : c.discreteValues = []) (most : c.maxLength = some n)
    (just : m.stem.toList.length = n.toNat)
    (room : Synthesis.suffixLength m settings ≤ Breakdown.mostBytes) (source : Source) :
    (Synthesis.drawValue m settings c none source).1 = .ok m.stem := by
  have drawn : Gives (Synthesis.drawValue m settings c none) (· = m.stem)
      (Synthesis.Overflows (Synthesis.suffixLength m settings)) := by
    rw [Synthesis.drawValue_of_unlisted unlisted, Synthesis.drawFresh_text (.inl type), most]
    refine .map (Synthesis.trackedText_eq m settings (some n)) fun text known => ?_
    obtain ⟨suffix, -, -, rfl⟩ := known
    rw [Synthesis.fitting, List.take_left' just, String.ofList_toList]
  cases made : (Synthesis.drawValue m settings c none source).1 with
  | ok value => rw [drawn.of_eq_ok made]
  | error cause => exact absurd (drawn.of_eq_error made).2 (Nat.not_lt.mpr room)

structure ForItem (ctx : Context) : Prop where
  schema : ctx.schema = itemSchema
  marker : ctx.marker = naming.marker
  settings : ctx.settings = .standard

theorem ForItem.known {ctx : Context} (h : ForItem ctx) :
    ctx.schema.object ⟨⟨1⟩⟩ = .ok (.elementType itemType) := by
  rw [h.schema]
  rfl

theorem describe_unasked {ctx : Context} (h : ForItem ctx) :
    describe ctx ⟨id, ⟨⟨1⟩⟩, none, none⟩ = .ok ⟨⟨⟨1⟩⟩, id, "tracked", false, some "tracked"⟩ := by
  have room : Synthesis.suffixLength ctx.marker ctx.settings ≤ Breakdown.mostBytes := by
    rw [h.marker, h.settings]
    decide
  have just : ctx.marker.stem.toList.length = UInt64.toNat 7 := by
    rw [h.marker]
    decide
  have stem : naming.marker.stem = "tracked" := rfl
  have token : naming.marker.tokenIn "tracked" = some "tracked" := by decide +kernel
  rw [Synthesis.describe_of_unusable h.known rfl rfl, Synthesis.madeUp,
    drawValue_of_stem rfl rfl rfl just room]
  simp only [Synthesis.descriptorOf, h.marker, stem, token]

theorem describe_script {ctx : Context} (h : ForItem ctx) :
    describe ctx ⟨id, ⟨⟨1⟩⟩, some "script", none⟩ = .ok ⟨⟨⟨1⟩⟩, id, "script", true, none⟩ := by
  have token : naming.marker.tokenIn "script" = none := by decide +kernel
  have accepted : Synthesis.acceptsValue itemType.data none "script" = true := by decide
  have usable : Synthesis.usableRequest? itemType.data ⟨id, ⟨⟨1⟩⟩, some "script", none⟩ = some "script" := by
    rw [Synthesis.usableRequest?, Option.filter_some, if_pos accepted]
  rw [Synthesis.describe_of_constraint h.known rfl, Synthesis.describeUnder, usable]
  simp only [Synthesis.descriptorOf, h.marker, token]

def itemText (value : String) : List Char :=
  Document.declaration ++ ("<item>".toList ++ (Markup.escape value.toList ++ "</item>".toList))

def itemDocument (d : Descriptor) : Document :=
  assemble (elementPiece "item".toList (.plain []) false (⟨Markup.escape d.value.toList, [d]⟩ ++ .plain []))
    unbound unbound

theorem xml_itemDocument (d : Descriptor) : (itemDocument d).xml = String.ofList (itemText d.value) := by
  have text : (itemDocument d).xml = String.ofList (Document.declaration ++
      ("<item>".toList ++ ((Markup.escape d.value.toList ++ []) ++ "</item>".toList))) := rfl
  rw [text, List.append_nil, itemText]

theorem render_item
    (made : ∀ ctx, ForItem ctx → describe ctx ⟨id, ⟨⟨1⟩⟩, requested, none⟩ = .ok d)
    (small : (itemDocument d).xml.utf8ByteSize ≤ Limits.standard.maxDocumentSize.toNat) :
    naming.render (itemPlan seed own id requested kept) = .ok (itemDocument d) := by
  have described := made ⟨itemSchema, naming.marker, .standard, seed⟩ ⟨rfl, rfl, rfl⟩
  have content : Document.writeContent ⟨itemSchema, naming.marker, .standard, seed⟩
      (.data ⟨id, ⟨⟨1⟩⟩, requested⟩) = .ok ⟨Markup.escape d.value.toList, [d]⟩ :=
    (Document.writeContent_data_eq_ok _).mpr ⟨d, described, rfl⟩
  have all : Document.writeAll ⟨itemSchema, naming.marker, .standard, seed⟩
      [.data ⟨id, ⟨⟨1⟩⟩, requested⟩] = .ok (⟨Markup.escape d.value.toList, [d]⟩ ++ .plain []) :=
    (Document.writeAll_cons_eq_ok _).mpr ⟨_, _, content, rfl, rfl⟩
  have tree : Document.writeContent ⟨itemSchema, naming.marker, .standard, seed⟩
      (.element own ⟨⟨2⟩⟩ [] [.data ⟨id, ⟨⟨1⟩⟩, requested⟩]) = .ok _ :=
    (Document.writeContent_element_eq_ok _).mpr
      ⟨itemType.reference ⟨⟨2⟩⟩ "item", .plain [], _, rfl, rfl, all, rfl⟩
  have written : Document.Written (Document.contextOf itemSchema naming.marker .standard
      (itemPlan seed own id requested kept)) (itemPlan seed own id requested kept) _ unbound unbound :=
    ⟨tree, rfl, rfl⟩
  exact (Document.render_of_written rfl written).trans (if_pos small)

def bareOutput (name : String) : Output := ⟨[.element name .empty []]⟩

theorem parse_bare {text name : String}
    (read : Markup.read text.toList = ⟨[.empty ⟨name.toList, []⟩], none⟩) :
    Output.parse text = .ok (bareOutput name) := by
  have bare : Markup.Tag.attributes true ⟨name.toList, []⟩ = .ok [] := by
    rw [Markup.Tag.attributes, Markup.readAttributes]
    rfl
  have element : Output.elementOf ⟨name.toList, []⟩ = .ok ⟨name, .empty, []⟩ := by
    rw [Output.elementOf, bare, String.ofList_toList]
    rfl
  simp only [Output.parse, read, Output.build, Output.buildEvent, element]
  rfl

theorem execute_item {name text : String} (value : d.value = name)
    (made : ∀ ctx, ForItem ctx → describe ctx ⟨id, ⟨⟨1⟩⟩, requested, none⟩ = .ok d)
    (sizes : (String.ofList (itemText name)).utf8ByteSize ≤ Limits.standard.maxDocumentSize.toNat ∧
      text.utf8ByteSize ≤ Limits.standard.maxOutputSize.toNat)
    (tag : String.ofList ('<' :: ((itemText name).drop 44).takeWhile (· != '<') ++ ['/', '>']) = text)
    (read : Markup.read text.toList = ⟨[.empty ⟨name.toList, []⟩], none⟩) :
    naming.execute (itemPlan seed own id requested kept) =
      ⟨.ok (itemDocument d, bareOutput name), false⟩ := by
  subst value
  have rendered : naming.render (itemPlan seed own id requested kept) = .ok (itemDocument d) :=
    render_item made (by rw [xml_itemDocument]; exact sizes.1)
  have answer : ∀ uri, naming.transformer (itemDocument d) uri = ⟨.output text, false⟩ := by
    intro uri
    simp only [naming, xml_itemDocument, String.toList_ofList]
    rw [← tag]
  have received : naming.received (.output text) = .ok (bareOutput d.value) := by
    have fits : Limits.standard.checkOutputSize text.utf8ByteSize = .ok () :=
      if_neg (Nat.not_lt.mpr sizes.2)
    have limits : naming.settings.limits = .standard := rfl
    rw [Scanner.received, TransformOutcome.receive, limits, fits]
    exact parse_bare read
  simp only [execute, rendered, answer, received]
  rfl

def namedDetection (id : RuleId) : Detection :=
  ⟨"E.1", id, ⟨⟨⟨1⟩⟩, ⟨[0]⟩, none, "script", "script", "tracked", "<tracked>", []⟩⟩

theorem apply_named : (namedDetection id).apply (itemPlan seed own id none .empty) =
    .ok (itemPlan seed own id (some "script") (OrderedMap.empty.insert ⟨⟨1⟩⟩ "script")) := by
  have rules : (itemPlan seed own id none .empty).valueRules.reverse = [⟨id, ⟨⟨1⟩⟩, none, none⟩] := rfl
  have last : (itemPlan seed own id none .empty).lastRule? id = some ⟨id, ⟨⟨1⟩⟩, none, none⟩ := by
    rw [Plan.lastRule?, rules, List.find?_cons_of_pos (by simp)]
  have target : (itemPlan seed own id none .empty).targetOf id ⟨⟨1⟩⟩ = .ok ⟨⟨1⟩⟩ := by
    rw [Plan.targetOf, last]
  have pinned : (itemPlan seed own id none .empty).pin? id "script" =
      some (itemPlan seed own id (some "script") .empty) := by
    simp [Plan.pin?, itemPlan, ElementRule.pin?, ScalarRule.pinFirst?, ContentRule.pinAmong?,
      ContentRule.pin?]
  simp only [namedDetection, Detection.apply, Plan.modify, target, pinned]
  rfl

theorem verify_named :
    naming.engine.verify (namedDetection id) (bareOutput "script") = .ok (.confirmed "<script>") := by
  have rule : naming.engine.rule (namedDetection id).analyzerRule = .ok .elementName := rfl
  have place : NodePath.resolve ⟨[0]⟩ (bareOutput "script") = some ⟨"script", .empty, []⟩ := rfl
  have name : Element.isNamed ⟨"script", .empty, []⟩ "script" = true := rfl
  have sample : Verification.confirm (Element.startTag ⟨"script", .empty, []⟩) = .confirmed "<script>" := rfl
  have renamed : Rule.elementName.verify (namedDetection id).payload (bareOutput "script") =
      .confirmed "<script>" := by
    simp only [Rule.verify, Verification.renamed, Verification.atElement, namedDetection, place, name,
      if_true, sample]
  rw [Engine.verify, rule]
  exact congrArg Except.ok renamed

def namedKey : String × ObjectId := ("E.1", ⟨⟨1⟩⟩)

theorem execute_unasked : naming.execute (itemPlan seed own id none .empty) =
    ⟨.ok (itemDocument ⟨⟨⟨1⟩⟩, id, "tracked", false, some "tracked"⟩, bareOutput "tracked"), false⟩ :=
  @execute_item seed own id none .empty _ "tracked" "<tracked/>" rfl (fun _ => describe_unasked)
    (by decide) (by decide) (by decide +kernel)

theorem execute_script {kept : OrderedMap ObjectId String} :
    naming.execute (itemPlan seed own id (some "script") kept) =
      ⟨.ok (itemDocument ⟨⟨⟨1⟩⟩, id, "script", true, none⟩, bareOutput "script"), false⟩ :=
  @execute_item seed own id (some "script") kept _ "script" "<script/>" rfl (fun _ => describe_script)
    (by decide) (by decide) (by decide +kernel)

theorem detections_named : naming.detections
    (itemDocument ⟨⟨⟨1⟩⟩, id, "tracked", false, some "tracked"⟩, bareOutput "tracked") =
      [namedDetection id] := rfl

theorem confirm_named : ∃ f, naming.confirm (itemPlan seed own id none .empty) (namedDetection id) =
    ⟨.ok (some f), false⟩ ∧ f.reportKey = namedKey := by
  rw [confirm, Candidate.begin_of_apply apply_named]
  simp only [execute_script, judge, verify_named]
  exact ⟨_, rfl, rfl⟩

theorem naming_confirms (seed : UInt64) (own id : RuleId) : ∃ run d f,
    naming.execute (itemPlan seed own id none .empty) = ⟨.ok run, false⟩ ∧ naming.detections run = [d] ∧
    naming.confirm (itemPlan seed own id none .empty) d = ⟨.ok (some f), false⟩ ∧
    d.reportKey = namedKey ∧ f.reportKey = namedKey := by
  obtain ⟨f, confirmed, key⟩ := @confirm_named seed own id
  exact ⟨_, namedDetection id, f, execute_unasked, detections_named, confirmed, rfl, key⟩

theorem iterate_naming (i : Nat) (summary : ScanSummary) {b : Board} (free : b.permits ≠ 0)
    (on : b.cancelled = false) : ∃ f : Finding, f.reportKey = namedKey ∧ naming.iterate i summary b =
      if b.isReported namedKey then ⟨.ok ((summary.begin.detect 1).count .duplicate), b⟩
      else ⟨.ok ((summary.begin.detect 1).count .confirmed), (b.acquire.report f).release⟩ := by
  obtain ⟨seed, own, id, planned⟩ := planOf_naming i
  obtain ⟨run, d, f, executed, detected, confirmed, key, same⟩ := naming_confirms seed own id
  refine ⟨f, same, ?_⟩
  rw [← key]
  exact iterate_of_confirm planned executed detected confirmed (same.trans key.symm) free on

theorem scan_naming : ∃ f : Finding, f.reportKey = namedKey ∧
    naming.scan false = ⟨.ok ⟨2, 0, 2, 1, 1, 0, false⟩, ⟨[f], 4, false⟩⟩ := by
  obtain ⟨f, key, first⟩ := @iterate_naming 0 .start ⟨[], 4, false⟩ (Nat.succ_ne_zero 3) rfl
  obtain ⟨_, -, second⟩ := @iterate_naming 1 ⟨1, 0, 1, 0, 1, 0, false⟩ ⟨[f], 4, false⟩ (Nat.succ_ne_zero 3) rfl
  have unseen : ¬ Board.isReported ⟨[], 4, false⟩ namedKey = true := nofun
  have seen : Board.isReported ⟨[f], 4, false⟩ namedKey = true := by simp [Board.isReported, key]
  have counted : (ScanSummary.start.begin.detect 1).count .confirmed = ⟨1, 0, 1, 0, 1, 0, false⟩ := rfl
  have board : ((Board.acquire ⟨[], 4, false⟩).report f).release = ⟨[f], 4, false⟩ := rfl
  rw [if_neg unseen, counted, board] at first
  rw [if_pos seen] at second
  have bookable : ¬ naming.isOverbooked = true := by decide
  have two : naming.settings.iterations.toNat = 2 := rfl
  have four : naming.firstBoard false = ⟨[], 4, false⟩ := rfl
  refine ⟨f, key, ?_⟩
  rw [scan, if_neg bookable, two, four, iterations_of_iterate rfl first, iterations_of_iterate rfl second]
  rfl

theorem scan_completes_naming : naming.Wired ∧ (∀ cause, ¬ naming.BreaksDown cause) ∧
    ∃ f : Finding, naming.scan false = ⟨.ok ⟨2, 0, 2, 1, 1, 0, false⟩, ⟨[f], 4, false⟩⟩ := by
  have sound := (scan_completes naming_wired false).2.2.2.1 (by decide) (by decide)
  obtain ⟨f, -, done⟩ := scan_naming
  exact ⟨naming_wired, sound, f, done⟩

def overbooking : Scanner :=
  { naming with settings := { naming.settings with maxConcurrentConfirmations := 2305843009213693952 } }

theorem scan_not_always_completed : overbooking.Wired ∧ ∀ cancelled,
    (overbooking.scan cancelled).summary = .error (.breakdown .permits) := by
  have wired : overbooking.Wired :=
    ⟨naming_wired.checked, naming_wired.rooted, rfl, naming_wired.distinct⟩
  have excess : overbooking.isOverbooked = true := by decide
  refine ⟨wired, fun cancelled => ?_⟩
  rw [scan, if_pos excess]

end Trial

end Scanner

end TaintScan
