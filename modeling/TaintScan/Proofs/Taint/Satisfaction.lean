import TaintScan.Proofs.Document.Completeness
import TaintScan.Proofs.Plan.Growing
import TaintScan.Proofs.Schema.Constraint
import TaintScan.Proofs.Taint.Drawing

namespace TaintScan

namespace Synthesis

open TaintScan.Random (Always Ensures Source Trial)

variable {marker : Marker} {settings : ValueSettings} {c : DataConstraint} {mode : Option RawMode}
  {s : String}

theorem acceptsValue_plain (h : c.accepts s = true) : acceptsValue c none s = true :=
  acceptsValue_iff.mpr ⟨h, nofun⟩

theorem usableValues_ne_nil (shape : mode = none ∨ c = .anyText) (fixed : c.hasFixedSet = true)
    (possible : c.accepts s = true) : usableValues c mode ≠ [] := by
  rcases shape with rfl | rfl
  · obtain ⟨v, member, accepted⟩ := c.exists_discrete fixed possible
    exact List.ne_nil_of_mem (List.mem_filter.mpr ⟨member, acceptsValue_plain accepted⟩)
  · cases fixed

theorem drawDiscrete?_usable : Ensures (drawDiscrete? settings c mode) fun picked =>
    (∀ v ∈ picked, acceptsValue c mode v = true) ∧
      (c.hasFixedSet = true → usableValues c mode ≠ [] → picked ≠ none) := by
  have subset : Always (Random.choose? (usableValues c mode)) fun picked =>
      ∀ v ∈ picked, acceptsValue c mode v = true := fun source v member =>
    (List.mem_filter.mp (Random.choose?_subset _ source v member)).2
  unfold drawDiscrete?
  by_cases fixed : c.hasFixedSet = true
  · rw [if_pos fixed]
    refine .lift fun source => ⟨subset source, fun _ nonempty none => ?_⟩
    obtain ⟨v, -, chosen⟩ := Random.choose?_mem nonempty source
    exact absurd (none.symm.trans chosen) nofun
  · rw [if_neg fixed]
    split
    · refine .bind (Random.chance_gives _).ensures fun fresh _ => ?_
      split
      · exact .pure ⟨nofun, fun given => absurd given fixed⟩
      · exact .lift fun source => ⟨subset source, fun given => absurd given fixed⟩
    · exact .pure ⟨nofun, fun given => absurd given fixed⟩

theorem drawToken_accepted (type : c.dataType = .string ∨ c.dataType = .other)
    (free : c.hasFixedSet = false) : Ensures (String.ofList <$> drawChars marker settings c.maxLength none)
      fun v => c.accepts v = true := by
  refine .map (trackedText_token c.maxLength).ensures fun token known =>
    DataConstraint.accepts_text free type ?_
  simpa only [String.length_ofList] using known.2.1

theorem drawFresh_accepted (free : c.hasFixedSet = false) (possible : c.accepts s = true) :
    Ensures (drawFresh marker settings c none) fun v => c.accepts v = true := by
  unfold drawFresh
  cases type : c.dataType with
  | boolean =>
    have drawn : Always (drawItem ["true", "false"]) (· ∈ ["true", "false"]) := drawItem_mem (by decide)
    exact .lift fun source => DataConstraint.accepts_boolean free type (drawn source)
  | integer =>
    refine .map (.lift (drawInteger_within (c.bounds_of_accepts type possible))) fun n within => ?_
    obtain ⟨i, rfl, low, high⟩ := within
    exact DataConstraint.accepts_integer free type low high
  | string => exact drawToken_accepted (.inl type) free
  | other => exact drawToken_accepted (.inr type) free

theorem drawFresh_anyText (mode : Option RawMode) : Ensures (drawFresh marker settings .anyText mode)
    fun v => acceptsValue .anyText mode v = true := by
  cases mode with
  | none =>
    exact .map (trackedText_token none).ensures fun _ _ => acceptsValue_plain (DataConstraint.accepts_anyText _)
  | some mode =>
    cases mode with
    | restricted =>
      refine .map drawText_chars.ensures fun _ _ => ?_
      exact acceptsValue_iff.mpr ⟨DataConstraint.accepts_anyText _, nofun⟩
    | full =>
      refine .map drawMarkup_fragment.ensures fun text fragment => ?_
      exact acceptsValue_iff.mpr ⟨DataConstraint.accepts_anyText _, fun _ => fragment⟩

/-- A drawn value may be given to the object of its rule, if any value satisfies the constraint. Raw
text is under no constraint; everything else has no mode. -/
theorem drawValue_accepted (shape : mode = none ∨ c = .anyText) (possible : c.accepts s = true) :
    Ensures (drawValue marker settings c mode) fun v => acceptsValue c mode v = true := by
  refine .bind drawDiscrete?_usable fun picked known => ?_
  obtain ⟨usable, prescribed⟩ := known
  cases picked with
  | some v => exact .pure (usable v rfl)
  | none =>
    have free : c.hasFixedSet = false := by
      by_contra fixed
      have fixed : c.hasFixedSet = true := by simpa using fixed
      exact prescribed fixed (usableValues_ne_nil shape fixed possible) rfl
    rcases shape with rfl | rfl
    · exact (drawFresh_accepted free possible).mono (fun _ => acceptsValue_plain) fun _ => id
    · exact drawFresh_anyText mode

theorem drawValue_restricted : Ensures (drawValue marker settings .anyText (some .restricted)) fun v =>
    ∀ ch ∈ v.toList, isTextChar ch = true := by
  have fresh : Ensures (String.ofList <$> drawText marker settings) fun v =>
      ∀ ch ∈ v.toList, isTextChar ch = true :=
    .map drawText_chars.ensures fun text chars => by simpa using chars
  rw [drawValue_of_unlisted rfl]
  exact fresh

/-- The value of a rule: the one that is asked for if it may be given, else a drawn one. -/
def valueFrom (marker : Marker) (settings : ValueSettings) (c : DataConstraint) (r : ValueRule) :
    Trial String :=
  match usableRequest? c r with
  | some value => return value
  | none => drawValue marker settings c r.mode

theorem describeUnder_value {ctx : Context} {r : ValueRule} {c : DataConstraint} {d : Descriptor}
    (described : describeUnder ctx r c = .ok d) :
    (valueFrom ctx.marker ctx.settings c r (sourceOf ctx r)).1 = .ok d.value := by
  rw [valueFrom]
  rcases describeUnder_eq_ok.mp described with ⟨value, usable, rfl⟩ | ⟨unusable, value, made, rfl⟩
  · rw [usable]
    rfl
  · rw [unusable]
    exact made

theorem valueFrom_eq_error_iff {r : ValueRule} {source : Source} {cause : Breakdown} :
    (valueFrom marker settings c r source).1 = .error cause ↔
      usableRequest? c r = none ∧ Breaks marker settings c r.mode source cause := by
  rw [valueFrom, ← drawValue_eq_error_iff]
  cases usableRequest? c r with
  | some value => exact iff_of_false nofun fun broken => nomatch broken.1
  | none => simp

structure Satisfies (c : DataConstraint) (r : ValueRule) (value : String) : Prop where
  accepted : (∃ s, c.accepts s = true) → c.accepts value = true
  fragment : r.mode = some .full → Markup.isFragment value = true
  plain : r.mode = some .restricted → usableRequest? c r = none →
    ∀ ch ∈ value.toList, ch.isAlphanum = true ∨ ch = ' '

theorem isAlphanum_of_isTextChar {ch : Char} (h : isTextChar ch = true) :
    ch.isAlphanum = true ∨ ch = ' ' := by
  simp only [isTextChar, Name.isMarkerChar, Bool.or_eq_true, beq_iff_eq] at h
  rcases h with (lower | digit) | blank
  · have letters : ch.isAlpha = (ch.isUpper || ch.isLower) := rfl
    exact .inl (by simp [Char.isAlphanum, letters, lower])
  · exact .inl (by simp [Char.isAlphanum, digit])
  · exact .inr blank

theorem valueFrom_satisfies {r : ValueRule} (shape : r.mode = none ∨ c = .anyText) :
    Ensures (valueFrom marker settings c r) (Satisfies c r) := by
  unfold valueFrom
  cases usable : usableRequest? c r with
  | some value =>
    obtain ⟨accepted, fragment⟩ := acceptsValue_iff.mp (Option.filter_eq_some_iff.mp usable).2
    exact .pure ⟨fun _ => accepted, fragment, fun _ drawn => by rw [usable] at drawn; cases drawn⟩
  | none =>
    intro source
    change Random.Settles _ _ (drawValue marker settings c r.mode source).1
    cases given : (drawValue marker settings c r.mode source).1 with
    | error cause => trivial
    | ok value =>
      have accepted {s : String} (possible : c.accepts s = true) :=
        acceptsValue_iff.mp ((drawValue_accepted shape possible).of_eq_ok given)
      refine ⟨fun ⟨s, possible⟩ => (accepted possible).1, fun full => ?_, fun restricted _ => ?_⟩
      · obtain rfl : c = .anyText := shape.resolve_left (by simp [full])
        exact (accepted (DataConstraint.accepts_anyText "")).2 full
      · obtain rfl : c = .anyText := shape.resolve_left (by simp [restricted])
        rw [restricted] at given
        exact fun ch member => isAlphanum_of_isTextChar (drawValue_restricted.of_eq_ok given ch member)

theorem describe_satisfies {ctx : Context} {r : ValueRule} {object : SchemaObject}
    (known : ctx.schema.object r.target = .ok object) (constraint : object.valueConstraint? = some c)
    (shape : r.mode = none ∨ c = .anyText) : (∃ d, describe ctx r = .ok d ∧ Satisfies c r d.value) ∨
      ∃ cause, BreaksDown ctx r cause ∧ describe ctx r = .error (.breakdown cause) := by
  refine (describe_cases known constraint).imp_left fun ⟨d, described⟩ => ⟨d, described, ?_⟩
  rw [describe_of_constraint known constraint] at described
  exact (valueFrom_satisfies shape).of_eq_ok (describeUnder_value described)

section Generated

variable {schema : Schema} {generation : GenerationSettings} {raw : RawMode} {choice : Plan.RootChoice}
  {source rest : Source} {plan : Plan} {r : ValueRule}

/-- The values of a generated plan are accepted by the constraints of their objects, whatever is
pinned to their rules, whatever marker and settings they are made with, and whatever is drawn. There is
always a value, unless making one up breaks down. -/
theorem generated_values_satisfy (checked : schema.check = .ok ())
    (made : Plan.generate schema generation raw choice source = .ok (plan, rest))
    (member : r ∈ plan.valueRules) (marker : Marker) (settings : ValueSettings)
    (requested : Option String) :
    ∃ object c, schema.object r.target = .ok object ∧ object.valueConstraint? = some c ∧
      (∀ words,
        (∀ value, (valueFrom marker settings c { r with requested := requested } words).1 = .ok value →
          Satisfies c { r with requested := requested } value) ∧
        ∀ cause, (valueFrom marker settings c { r with requested := requested } words).1 = .error cause ↔
          usableRequest? c { r with requested := requested } = none ∧
            Breaks marker settings c r.mode words cause) ∧
      ∀ seed, (∃ d, describe ⟨schema, marker, settings, seed⟩ { r with requested := requested } = .ok d ∧
          Satisfies c { r with requested := requested } d.value) ∨
        ∃ cause, BreaksDown ⟨schema, marker, settings, seed⟩ { r with requested := requested } cause ∧
          describe ⟨schema, marker, settings, seed⟩ { r with requested := requested } =
            .error (.breakdown cause) := by
  obtain ⟨object, c, known, constraint, shape⟩ :=
    (Plan.generate_fits (Schema.sound_of_check checked) made).constrained r member
  have drawn : Ensures (valueFrom marker settings c { r with requested := requested })
      (Satisfies c { r with requested := requested }) := valueFrom_satisfies shape
  refine ⟨object, c, known, constraint, fun words =>
    ⟨fun value => drawn.of_eq_ok, fun cause => valueFrom_eq_error_iff⟩, fun seed => ?_⟩
  exact describe_satisfies known constraint shape

theorem generated_values_satisfy_refused :
    Document.trialSchema.check = .ok () ∧ ∃ plan rest r,
      Plan.generate Document.trialSchema .standard .full .uniform ⟨fun _ => 0, 0⟩ = .ok (plan, rest) ∧
      r ∈ plan.valueRules ∧ ∃ object c, Document.trialSchema.object r.target = .ok object ∧
      object.valueConstraint? = some c ∧
      ∀ seed, ∃ d, describe ⟨Document.trialSchema, Document.trialMarker, ⟨0.75, 9, 3, 6⟩, seed⟩
        { r with requested := some "<" } = .ok d ∧
        Satisfies c { r with requested := some "<" } d.value := by
  have checked : Document.trialSchema.check = .ok () := rfl
  obtain ⟨plan, rest, r, made, member⟩ : ∃ plan rest r,
      Plan.generate Document.trialSchema .standard .full .uniform ⟨fun _ => 0, 0⟩ = .ok (plan, rest) ∧
        r ∈ plan.valueRules := by
    have some : (Plan.generate Document.trialSchema .standard .full .uniform ⟨fun _ => 0, 0⟩).toOption.any
        (fun p => p.1.valueRules.length == 2) = true := by decide +kernel
    cases made : Plan.generate Document.trialSchema .standard .full .uniform ⟨fun _ => 0, 0⟩ with
    | error e => simp [made, Except.toOption] at some
    | ok result =>
      obtain ⟨plan, rest⟩ := result
      have two : plan.valueRules.length = 2 := by simpa [made, Except.toOption] using some
      obtain ⟨r, member⟩ := List.exists_mem_of_length_pos (l := plan.valueRules) (by omega)
      exact ⟨plan, rest, r, rfl, member⟩
  obtain ⟨object, c, known, constraint, -, described⟩ :=
    generated_values_satisfy checked made member Document.trialMarker ⟨0.75, 9, 3, 6⟩ (some "<")
  refine ⟨checked, plan, rest, r, made, member, object, c, known, constraint, fun seed => ?_⟩
  have number : (0.75 : Float).isNaN = false := by decide
  have room : suffixLength Document.trialMarker ⟨0.75, 9, 3, 6⟩ ≤ Breakdown.mostBytes := by decide
  refine (described seed).resolve_right fun ⟨cause, broken, _⟩ => ?_
  have able {q : ValueRule} : ¬ BreaksDown ⟨Document.trialSchema, Document.trialMarker, ⟨0.75, 9, 3, 6⟩,
      seed⟩ q cause := not_breaksDown number room
  exact able broken

end Generated

end Synthesis

end TaintScan
