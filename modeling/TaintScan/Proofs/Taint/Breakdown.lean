import TaintScan.Proofs.Document.Writing
import TaintScan.Proofs.Taint.Drawing

namespace TaintScan.Synthesis

open TaintScan.Random (Gives Source Trial)

variable {ctx : Context} {marker : Marker} {settings : ValueSettings} {c : DataConstraint}
  {mode : Option RawMode} {r : ValueRule} {source : Source} {cause : Breakdown}

/-- Why no value can be made up: chance is to decide about a suggestion with a probability that is no
number, or a text is needed and there is no room for it. -/
def Breaks (marker : Marker) (settings : ValueSettings) (c : DataConstraint) (mode : Option RawMode)
    (source : Source) : Breakdown → Prop
  | .probability => c.hasFixedSet = false ∧ c.hasInterestingSet = true ∧
      settings.freshValueProbability.isNaN = true
  | .capacity => (drawDiscrete? settings c mode source).1 = .ok none ∧
      (c.dataType = .string ∨ c.dataType = .other) ∧
      Breakdown.mostBytes < suffixLength marker settings
  | .permits => False

theorem drawDiscrete?_eq_error_iff : (drawDiscrete? settings c mode source).1 = .error cause ↔
    cause = .probability ∧ c.hasFixedSet = false ∧ c.hasInterestingSet = true ∧
      settings.freshValueProbability.isNaN = true := by
  refine Gives.eq_error_iff ?_
  unfold drawDiscrete?
  by_cases fixed : c.hasFixedSet = true
  · rw [if_pos fixed]
    exact .lift fun _ odd => by simp [fixed] at odd
  · rw [if_neg fixed]
    by_cases interesting : c.hasInterestingSet = true
    · rw [if_pos interesting]
      have free : c.hasFixedSet = false := by simpa using fixed
      simp only [free, interesting, true_and]
      refine .bind (Random.chance_gives _) fun fresh number => ?_
      split
      · exact .pure number
      · exact .lift fun _ => number
    · rw [if_neg interesting]
      exact .pure fun odd => interesting odd.2.1

theorem drawDiscrete?_of_unlisted (unlisted : c.discreteValues = []) :
    drawDiscrete? settings c mode = return none := by
  simp [drawDiscrete?, DataConstraint.hasFixedSet, DataConstraint.hasInterestingSet, unlisted]

theorem drawValue_of_unlisted (unlisted : c.discreteValues = []) :
    drawValue marker settings c mode = drawFresh marker settings c mode := by
  rw [drawValue, drawDiscrete?_of_unlisted unlisted]
  rfl

theorem trackedText_fits (most : Option UInt64) : Gives (trackedText marker settings most)
    (fun _ => suffixLength marker settings ≤ Breakdown.mostBytes)
    (Overflows (suffixLength marker settings)) := by
  refine .bind (drawSuffix_chars _) fun suffix known => ?_
  cases most with
  | none => exact .pure known.1
  | some n => exact .pure known.1

theorem drawChars_fits (most : Option UInt64) : Gives (drawChars marker settings most mode)
    (fun _ => suffixLength marker settings ≤ Breakdown.mostBytes)
    (Overflows (suffixLength marker settings)) := by
  have token := @trackedText_fits marker settings
  cases mode with
  | none => exact token most
  | some mode =>
    cases mode with
    | restricted =>
      exact .bind (token none) fun _ room => .bind (.lift (.trivial _)) fun _ _ => .pure room
    | full =>
      refine .bind (token none) fun _ room => .bind (.lift (.trivial _)) fun _ _ => ?_
      exact .bind (.lift (.trivial _)) fun _ _ => .pure room

theorem drawFresh_eq_error_iff : (drawFresh marker settings c mode source).1 = .error cause ↔
    cause = .capacity ∧ (c.dataType = .string ∨ c.dataType = .other) ∧
      Breakdown.mostBytes < suffixLength marker settings := by
  refine Gives.eq_error_iff ?_
  unfold drawFresh
  cases type : c.dataType with
  | boolean => exact .lift fun _ => by simp
  | integer => exact .map (.lift (.trivial _)) fun _ _ => by simp
  | string => simpa using .map (drawChars_fits c.maxLength) fun _ room => room
  | other => simpa using .map (drawChars_fits c.maxLength) fun _ room => room

theorem drawValue_eq_error_iff : (drawValue marker settings c mode source).1 = .error cause ↔
    Breaks marker settings c mode source cause := by
  have discrete := @drawDiscrete?_eq_error_iff settings c mode source
  have fresh := @drawFresh_eq_error_iff marker settings c mode
  have opened : (drawValue marker settings c mode source).1 =
      match (drawDiscrete? settings c mode source).1 with
      | .ok (some value) => .ok value
      | .ok none => (drawFresh marker settings c mode (drawDiscrete? settings c mode source).2).1
      | .error cause => .error cause := by
    rw [drawValue, Random.trial_bind_apply]
    obtain ⟨result, rest⟩ := drawDiscrete? settings c mode source
    cases result with
    | error cause => rfl
    | ok picked => cases picked <;> rfl
  rw [opened]
  cases picked : (drawDiscrete? settings c mode source).1 with
  | error broken =>
    obtain ⟨rfl, odd⟩ := discrete.mp picked
    cases cause with
    | probability => exact iff_of_true rfl odd
    | capacity => simp [Breaks, picked]
    | permits => simp [Breaks]
  | ok value? =>
    have decided : ¬ (c.hasFixedSet = false ∧ c.hasInterestingSet = true ∧
        settings.freshValueProbability.isNaN = true) := fun odd =>
      nomatch picked.symm.trans (discrete.mpr ⟨rfl, odd⟩)
    cases value? with
    | some value =>
      cases cause with
      | probability => exact iff_of_false nofun decided
      | capacity => exact iff_of_false nofun fun broken => nomatch picked.symm.trans broken.1
      | permits => exact iff_of_false nofun id
    | none =>
      rw [fresh]
      cases cause with
      | probability => exact iff_of_false nofun decided
      | capacity => exact ⟨fun broken => ⟨picked, broken.2⟩, fun broken => ⟨rfl, broken.2⟩⟩
      | permits => exact iff_of_false nofun id

theorem breaks_of_unlisted (type : c.dataType = .string ∨ c.dataType = .other)
    (unlisted : c.discreteValues = []) : Breaks marker settings c mode source cause ↔
      Overflows (suffixLength marker settings) cause := by
  cases cause with
  | probability => simp [Breaks, Overflows, DataConstraint.hasInterestingSet, unlisted]
  | capacity =>
    rw [Breaks, drawDiscrete?_of_unlisted unlisted]
    exact ⟨fun broken => ⟨rfl, broken.2.2⟩, fun long => ⟨rfl, type, long.2⟩⟩
  | permits => simp [Breaks, Overflows]

/-- No value can be made up for a rule whose object takes one. -/
def BreaksDown (ctx : Context) (r : ValueRule) (cause : Breakdown) : Prop :=
  ∃ object c, ctx.schema.object r.target = .ok object ∧ object.valueConstraint? = some c ∧
    usableRequest? c r = none ∧ Breaks ctx.marker ctx.settings c r.mode (sourceOf ctx r) cause

theorem describeUnder_eq_breakdown_iff : describeUnder ctx r c = .error (.breakdown cause) ↔
    usableRequest? c r = none ∧ Breaks ctx.marker ctx.settings c r.mode (sourceOf ctx r) cause := by
  rw [describeUnder, ← drawValue_eq_error_iff]
  cases usableRequest? c r with
  | some value => simp
  | none =>
    rw [madeUp]
    cases (drawValue ctx.marker ctx.settings c r.mode (sourceOf ctx r)).1 <;> simp

theorem describeUnder_cases (ctx : Context) (r : ValueRule) (c : DataConstraint) :
    (∃ d, describeUnder ctx r c = .ok d) ∨ ∃ cause, describeUnder ctx r c = .error (.breakdown cause) := by
  rw [describeUnder]
  cases usableRequest? c r with
  | some value => exact .inl ⟨_, rfl⟩
  | none =>
    cases madeUp ctx r c with
    | ok value => exact .inl ⟨_, rfl⟩
    | error cause => exact .inr ⟨cause, rfl⟩

theorem describe_of_constraint {object : SchemaObject}
    (known : ctx.schema.object r.target = .ok object) (constraint : object.valueConstraint? = some c) :
    describe ctx r = describeUnder ctx r c := by
  simp only [describe, known, constraint]

theorem describe_cases {object : SchemaObject} (known : ctx.schema.object r.target = .ok object)
    (constraint : object.valueConstraint? = some c) : (∃ d, describe ctx r = .ok d) ∨
      ∃ cause, BreaksDown ctx r cause ∧ describe ctx r = .error (.breakdown cause) := by
  rw [describe_of_constraint known constraint]
  rcases describeUnder_cases ctx r c with described | ⟨cause, failed⟩
  · exact .inl described
  · obtain ⟨unusable, broken⟩ := describeUnder_eq_breakdown_iff.mp failed
    exact .inr ⟨cause, ⟨object, c, known, constraint, unusable, broken⟩, failed⟩

theorem BreaksDown.describe_eq (h : BreaksDown ctx r cause) :
    describe ctx r = .error (.breakdown cause) := by
  obtain ⟨object, c, known, constraint, unusable, broken⟩ := h
  rw [describe_of_constraint known constraint]
  exact describeUnder_eq_breakdown_iff.mpr ⟨unusable, broken⟩

theorem BreaksDown.of_asking {value : String} (unasked : r.requested = none)
    (h : BreaksDown ctx { r with requested := some value } cause) : BreaksDown ctx r cause := by
  obtain ⟨object, c, known, constraint, -, broken⟩ := h
  have unusable : usableRequest? c r = none := by rw [usableRequest?, unasked, Option.filter_none]
  exact ⟨object, c, known, constraint, unusable, broken⟩

theorem describe_of_unusable {object : SchemaObject} (known : ctx.schema.object r.target = .ok object)
    (constraint : object.valueConstraint? = some c) (unusable : usableRequest? c r = none) :
    describe ctx r = match madeUp ctx r c with
      | .ok value => .ok (descriptorOf ctx r value false)
      | .error cause => .error (.breakdown cause) := by
  rw [describe_of_constraint known constraint]
  cases made : madeUp ctx r c with
  | ok value => simp only [describeUnder, unusable, made]
  | error cause => simp only [describeUnder, unusable, made]

/-- There is no room for a text, when the probability is a number. -/
theorem BreaksDown.overflows (h : BreaksDown ctx r cause)
    (number : ctx.settings.freshValueProbability.isNaN = false) :
    Overflows (suffixLength ctx.marker ctx.settings) cause := by
  obtain ⟨object, c, -, -, -, broken⟩ := h
  cases cause with
  | probability => exact absurd (number.symm.trans broken.2.2) Bool.false_ne_true
  | capacity => exact ⟨rfl, broken.2.2⟩
  | permits => exact broken.elim

theorem not_breaksDown (number : ctx.settings.freshValueProbability.isNaN = false)
    (room : suffixLength ctx.marker ctx.settings ≤ Breakdown.mostBytes) :
    ¬ BreaksDown ctx r cause :=
  fun broken => Nat.not_lt.mpr room (broken.overflows number).2

/-- The first of some value rules that no value can be made up for, and why. -/
def FirstBreak (ctx : Context) (rules : List ValueRule) (cause : Breakdown) : Prop :=
  ∃ earlier r later, rules = earlier ++ r :: later ∧ (∀ q ∈ earlier, ∃ d, describe ctx q = .ok d) ∧
    BreaksDown ctx r cause

namespace FirstBreak

variable {rules others : List ValueRule}

theorem append_right (h : FirstBreak ctx rules cause) (others : List ValueRule) :
    FirstBreak ctx (rules ++ others) cause := by
  obtain ⟨earlier, r, later, rfl, described, broken⟩ := h
  exact ⟨earlier, r, later ++ others, by simp, described, broken⟩

theorem append_left (described : ∀ q ∈ rules, ∃ d, describe ctx q = .ok d)
    (h : FirstBreak ctx others cause) : FirstBreak ctx (rules ++ others) cause := by
  obtain ⟨earlier, r, later, rfl, more, broken⟩ := h
  exact ⟨rules ++ earlier, r, later, by simp, List.forall_mem_append.mpr ⟨described, more⟩, broken⟩

theorem length_le {other : Breakdown} {earlier front later back : List ValueRule} {r q : ValueRule}
    (split : rules = earlier ++ r :: later) (divided : rules = front ++ q :: back)
    (described : ∀ q ∈ earlier, ∃ d, describe ctx q = .ok d) (broken : BreaksDown ctx q other) :
    earlier.length ≤ front.length := by
  by_contra behind
  have inside : earlier[front.length]? = some q := by
    have place : rules[front.length]? = some q := by simp [divided]
    rwa [split, List.getElem?_append_left (by omega)] at place
  obtain ⟨d, made⟩ := described q (List.mem_of_getElem? inside)
  exact nomatch made.symm.trans broken.describe_eq

theorem unique {other : Breakdown} (h : FirstBreak ctx rules cause) (h' : FirstBreak ctx rules other) :
    cause = other := by
  obtain ⟨earlier, r, later, split, described, broken⟩ := h
  obtain ⟨front, q, back, divided, made, failed⟩ := h'
  have same : earlier.length = front.length := Nat.le_antisymm
    (length_le split divided described failed) (length_le divided split made broken)
  obtain ⟨-, rest⟩ := List.append_inj (split.symm.trans divided) same
  obtain ⟨rfl, -⟩ := List.cons.inj rest
  have equal := broken.describe_eq.symm.trans failed.describe_eq
  exact Error.breakdown.inj (Except.error.inj equal)

theorem eq_capacity (h : FirstBreak ctx rules cause)
    (number : ctx.settings.freshValueProbability.isNaN = false) : cause = .capacity := by
  obtain ⟨earlier, r, later, -, -, broken⟩ := h
  exact (broken.overflows number).1

theorem false_of_room (h : FirstBreak ctx rules cause)
    (number : ctx.settings.freshValueProbability.isNaN = false)
    (room : suffixLength ctx.marker ctx.settings ≤ Breakdown.mostBytes) : False := by
  obtain ⟨earlier, r, later, -, -, broken⟩ := h
  exact not_breaksDown number room broken

theorem singleton (h : BreaksDown ctx r cause) : FirstBreak ctx [r] cause := ⟨[], r, [], rfl, nofun, h⟩

end FirstBreak

end TaintScan.Synthesis
