import TaintScan.Proofs.Plan.Expansion

namespace TaintScan.Plan

open TaintScan.Random (Always Draw Source)
open Grow (Yields YieldsFrom)

variable {schema : Schema} {settings : GenerationSettings} {mode : RawMode} {n : Nat}

def elements (p : Plan) : List ElementRule := p.root.toContent.elements

def growBelow (schema : Schema) (tag : ElementReference → Grow ElementRule) (seed : UInt64)
    (root : ElementReference) : Grow Plan := do
  let root ← tag root
  let functions ← growRules (schema.functions.map FunctionDecl.id)
  let parameters ← growRules (schema.parameters.map ParameterDecl.id)
  return ⟨schema.stylesheet, schema.version, seed, root, functions, parameters, .empty⟩

/-- Grows a plan whose tree is grown by a given step. -/
def growWith (schema : Schema) (tag : ElementReference → Grow ElementRule) (choice : RootChoice) :
    Grow Plan := do
  let seed ← Grow.draw Random.word64
  match ← Grow.draw (choice.pick schema.rootElements) with
  | none => throw (.schema (.noRoots schema.stylesheet))
  | some root => growBelow schema tag seed root

theorem grow_eq_growWith (choice : RootChoice) : grow schema settings mode choice =
    growWith schema (growElement schema settings mode (settings.limits.maxElements.toNat + 1)) choice :=
  rfl

theorem growWith_cases (schema : Schema) (choice : RootChoice) (g : Growth) :
    (∃ source, (choice.pick schema.rootElements source).1 = none ∧
      ∀ tag, growWith schema tag choice g = .error (.schema (.noRoots schema.stylesheet))) ∨
    ∃ root ∈ schema.rootElements, ∃ seed g', g'.count = g.count ∧
      ∀ tag, growWith schema tag choice g = growBelow schema tag seed root g' := by
  have known : ∀ source, ∀ root ∈ (choice.pick schema.rootElements source).1,
      root ∈ schema.rootElements := by
    cases choice with
    | uniform => exact Random.choose?_subset schema.rootElements
    | fixed index => exact fun _ root member => List.mem_of_getElem? member
  have opened : ∀ tag, growWith schema tag choice g =
      (match (choice.pick schema.rootElements (Random.word64 g.source).2).1 with
        | none => (throw (Error.schema (.noRoots schema.stylesheet)) : Grow Plan)
        | some root => growBelow schema tag (Random.word64 g.source).1 root)
        ⟨(choice.pick schema.rootElements (Random.word64 g.source).2).2, g.count⟩ := fun _ => rfl
  cases picked : (choice.pick schema.rootElements (Random.word64 g.source).2).1 with
  | none =>
    refine .inl ⟨_, picked, fun tag => ?_⟩
    rw [opened, picked]
    rfl
  | some root =>
    have grown : ∀ tag, growWith schema tag choice g = growBelow schema tag _ root ⟨_, g.count⟩ :=
      fun tag => by rw [opened, picked]
    refine .inr ⟨root, known _ root picked, _, _, ?_, grown⟩
    rfl

theorem growRules_targets {broken : Prop} (objects : List ObjectId) :
    YieldsFrom broken n (growRules objects) fun rules k =>
      rules.map ScalarRule.target = objects ∧ k = n := by
  induction objects with
  | nil => exact .pure ⟨rfl, rfl⟩
  | cons object rest ih =>
    refine .bind .ruleId fun id k same => ?_
    subst same
    refine .bind ih fun rules k known => .pure ?_
    exact ⟨congrArg (object :: ·) known.1, known.2⟩

structure GrownFrom (schema : Schema) (settings : GenerationSettings) (mode : RawMode) (p : Plan)
    (k : Nat) : Prop where
  stylesheet : p.stylesheet = schema.stylesheet
  version : p.version = schema.version
  counted : p.elementCount = k
  bounded : k ≤ max 1 settings.limits.maxElements.toNat
  conform : ∀ e ∈ p.elements,
    e.Conforms schema settings.limits mode (k < settings.limits.maxElements.toNat)
  functions : p.functions.map ScalarRule.target = schema.functions.map FunctionDecl.id
  parameters : p.parameters.map ScalarRule.target = schema.parameters.map ParameterDecl.id

theorem growBelow_grown (settings : GenerationSettings) (mode : RawMode) (sound : schema.Sound)
    (seed : UInt64) {root : ElementReference} (member : root ∈ schema.rootElements) :
    YieldsFrom (settings.Undecided schema) 0 (growBelow schema
      (growElement schema settings mode (settings.limits.maxElements.toNat + 1)) seed root)
      (GrownFrom schema settings mode) := by
  have inside : root ∈ schema.references := List.mem_append.mpr (.inl member)
  refine .bind (growElement_grown sound _ inside (by omega) (by omega)) fun tree k grown => ?_
  obtain ⟨-, conforms, count, bound, conform⟩ := grown
  refine .bind (growRules_targets _) fun functions between fs => ?_
  obtain ⟨fs, rfl⟩ := fs
  refine .bind (growRules_targets _) fun parameters final ps => .pure ?_
  obtain ⟨ps, rfl⟩ := ps
  refine ⟨rfl, rfl, ?_, by omega, List.forall_mem_cons.mpr ⟨conforms, conform⟩, fs, ps⟩
  rw [ContentRule.length_elementsOf] at count
  rw [count, Nat.zero_add]
  rfl

theorem generate_grown (sound : schema.Sound) {choice : RootChoice} {source rest : Source} {p : Plan}
    (made : generate schema settings mode choice source = .ok (p, rest)) :
    ∃ growth, grow schema settings mode choice ⟨source, 0⟩ = .ok (p, growth) ∧
      GrownFrom schema settings mode p growth.count := by
  rcases growWith_cases schema choice ⟨source, 0⟩ with ⟨_, -, failed⟩ | ⟨root, member, seed, g, start, same⟩
  · rw [generate, grow_eq_growWith, failed] at made
    cases made
  · rw [generate, grow_eq_growWith, same] at made
    rcases growBelow_grown settings mode sound seed member g start with
      ⟨q, growth, done, grown⟩ | ⟨-, failed⟩
    · rw [done] at made
      cases made
      exact ⟨growth, by rw [grow_eq_growWith, same, done], grown⟩
    · rw [failed] at made
      cases made

/-- Growing breaks down, which it does only if something may have to be decided by chance with a
probability that is no number. -/
def BreaksUndecided (schema : Schema) (settings : GenerationSettings) (mode : RawMode)
    (choice : RootChoice) (source : Source) : Prop :=
  settings.Undecided schema ∧
    generate schema settings mode choice source = .error (.breakdown .probability)

theorem generate_cases (settings : GenerationSettings) (mode : RawMode) (sound : schema.Sound)
    (choice : RootChoice) (source : Source) :
    (∃ left, (choice.pick schema.rootElements left).1 = none ∧
      generate schema settings mode choice source = .error (.schema (.noRoots schema.stylesheet))) ∨
    (∃ p rest, generate schema settings mode choice source = .ok (p, rest)) ∨
    BreaksUndecided schema settings mode choice source := by
  rcases growWith_cases schema choice ⟨source, 0⟩ with ⟨left, none, failed⟩ | ⟨root, member, seed, g, start, same⟩
  · exact .inl ⟨left, none, by rw [generate, grow_eq_growWith, failed]⟩
  · rcases growBelow_grown settings mode sound seed member g start with
      ⟨p, growth, done, -⟩ | ⟨odd, failed⟩
    · exact .inr (.inl ⟨p, growth.source, by rw [generate, grow_eq_growWith, same, done]⟩)
    · exact .inr (.inr ⟨odd, by rw [generate, grow_eq_growWith, same, failed]⟩)

theorem exists_generate (settings : GenerationSettings) (mode : RawMode) (sound : schema.Sound)
    (rooted : schema.rootElements ≠ []) (source : Source) :
    (∃ p rest, generate schema settings mode .uniform source = .ok (p, rest)) ∨
      BreaksUndecided schema settings mode .uniform source := by
  rcases generate_cases settings mode sound .uniform source with ⟨left, none, -⟩ | grown
  · obtain ⟨root, -, picked⟩ := Random.choose?_mem rooted left
    exact absurd (none.symm.trans picked) nofun
  · exact grown

theorem exists_generate_of_decided {settings : GenerationSettings} (decided : ¬ settings.Undecided schema)
    (mode : RawMode) (sound : schema.Sound) (rooted : schema.rootElements ≠ []) (source : Source) :
    ∃ p rest, generate schema settings mode .uniform source = .ok (p, rest) :=
  (exists_generate settings mode sound rooted source).resolve_right fun broken => decided broken.1

theorem GrownFrom.fits {p : Plan} {k : Nat} (h : GrownFrom schema settings mode p k)
    (sound : schema.Sound) : p.Fits schema := by
  have tree := ContentRule.fits_of_conform sound p.root.toContent rfl h.conform
  refine ⟨h.stylesheet, h.version, tree, fun r member => ?_, fun r member => ?_⟩
  · have target : r.target ∈ schema.functions.map FunctionDecl.id :=
      h.functions ▸ List.mem_map_of_mem member
    obtain ⟨f, declared, same⟩ := List.mem_map.mp target
    exact ⟨f, same ▸ sound.function_of_mem declared⟩
  · have target : r.target ∈ schema.parameters.map ParameterDecl.id :=
      h.parameters ▸ List.mem_map_of_mem member
    obtain ⟨q, declared, same⟩ := List.mem_map.mp target
    exact ⟨q, same ▸ sound.parameter_of_mem declared⟩

theorem generate_fits (sound : schema.Sound) {choice : RootChoice} {source rest : Source} {plan : Plan}
    (made : generate schema settings mode choice source = .ok (plan, rest)) : plan.Fits schema := by
  obtain ⟨growth, -, grown⟩ := generate_grown sound made
  exact grown.fits sound

theorem generate_yields {broken : Prop} {choice : RootChoice} {P : Plan → Prop} {source rest : Source}
    {plan : Plan} (grown : Yields broken (grow schema settings mode choice) P)
    (made : generate schema settings mode choice source = .ok (plan, rest)) : P plan := by
  rw [generate] at made
  rcases grown 0 ⟨source, 0⟩ rfl with ⟨p, left, done, h⟩ | ⟨-, failed⟩
  · rw [done] at made
    cases made
    exact h
  · rw [failed] at made
    cases made

/-- Every element rule of a generated plan has the attributes and the content of its type. What a
content model asks for at least is missing only if there are as many element rules as are allowed. -/
theorem generate_conforms (settings : GenerationSettings) (mode : RawMode)
    (checked : schema.check = .ok ()) (rooted : schema.rootElements ≠ []) :
    (∀ source, (∃ plan rest, generate schema settings mode .uniform source = .ok (plan, rest)) ∨
      BreaksUndecided schema settings mode .uniform source) ∧
    ∀ choice source plan rest, generate schema settings mode choice source = .ok (plan, rest) →
      ∀ e ∈ plan.elements, e.Conforms schema settings.limits mode
        (plan.elementCount < settings.limits.maxElements.toNat) := by
  have sound := Schema.sound_of_check checked
  refine ⟨exists_generate settings mode sound rooted, fun choice source plan rest made => ?_⟩
  obtain ⟨growth, -, grown⟩ := generate_grown sound made
  rw [grown.counted]
  exact grown.conform

section Trial

def titleType : ElementType := .mixed ⟨⟨1⟩⟩ "title"

def sectionType : ElementType :=
  ((ElementType.ofElements ⟨⟨2⟩⟩ "section" .sequence).withChild
    (titleType.reference ⟨⟨3⟩⟩ "title")).withChild
    ((ElementReference.exactlyOnce ⟨⟨4⟩⟩ "section" ⟨⟨2⟩⟩).withOccurs 1 none)

def bookSchema : Schema :=
  ⟨"book.xsl", 1, [titleType, sectionType], [sectionType.reference ⟨⟨5⟩⟩ "section"], [], []⟩

theorem bookSchema_decided (settings : GenerationSettings) : ¬ settings.Undecided bookSchema := by
  rintro (⟨-, t, member, a, declared, -⟩ | ⟨-, t, member, mixed, some⟩)
  · rcases List.mem_pair.mp member with rfl | rfl
    · cases declared
    · cases declared
  · rcases List.mem_pair.mp member with rfl | rfl
    · exact some rfl
    · cases mixed

theorem generate_conforms_book : bookSchema.check = .ok () ∧ bookSchema.rootElements ≠ [] ∧
    ∃ plan rest, generate bookSchema .standard .full .uniform (.ofSeed 7) = .ok (plan, rest) ∧
      ∀ e ∈ plan.elements, e.Conforms bookSchema GenerationSettings.standard.limits .full
        (plan.elementCount < GenerationSettings.standard.limits.maxElements.toNat) := by
  have checked : bookSchema.check = .ok () := rfl
  have rooted : bookSchema.rootElements ≠ [] := by decide
  obtain ⟨succeeds, conforms⟩ := generate_conforms .standard .full checked rooted
  obtain ⟨plan, rest, made⟩ := (succeeds (.ofSeed 7)).resolve_right fun broken =>
    bookSchema_decided _ broken.1
  exact ⟨checked, rooted, plan, rest, made, conforms .uniform _ plan rest made⟩

end Trial

end TaintScan.Plan
