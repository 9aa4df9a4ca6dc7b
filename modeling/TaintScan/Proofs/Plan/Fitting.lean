import TaintScan.Proofs.Plan.Pinning
import TaintScan.Proofs.Schema.Lookup
import TaintScan.Proofs.Taint.Breakdown

namespace TaintScan

open Synthesis (Context describe)

namespace ContentRule

mutual

/-- Elements are references, attributes are attributes, data and raw text belong to types that have
them. -/
def Fits (schema : Schema) : ContentRule → Prop
  | element _ reference attributes content =>
    (∃ r, schema.elementReference reference = .ok r) ∧
      (∀ a ∈ attributes, ∃ attr, schema.attributeDecl a.target = .ok attr) ∧ FitsAll schema content
  | data r => ∃ t, schema.elementType r.target = .ok t ∧ t.contentType = .data
  | raw r _ => ∃ t, schema.elementType r.target = .ok t ∧ t.contentType = .mixed

def FitsAll (schema : Schema) : List ContentRule → Prop
  | [] => True
  | c :: rest => Fits schema c ∧ FitsAll schema rest

end

end ContentRule

namespace Plan

structure Fits (schema : Schema) (p : Plan) : Prop where
  stylesheet : p.stylesheet = schema.stylesheet
  version : p.version = schema.version
  root : p.root.toContent.Fits schema
  functions : ∀ r ∈ p.functions, ∃ f, schema.function r.target = .ok f
  parameters : ∀ r ∈ p.parameters, ∃ q, schema.parameter r.target = .ok q

end Plan

section Pinning

variable {schema : Schema} {id : RuleId} {value : String}

theorem ScalarRule.forall_target_of_pinFirst? {rules pinned : List ScalarRule} (P : ObjectId → Prop)
    (h : pinFirst? id value rules = some pinned) (all : ∀ r ∈ rules, P r.target) :
    ∀ r ∈ pinned, P r.target := by
  intro r member
  have inside : r.target ∈ rules.map target :=
    targets_of_pinFirst? h ▸ List.mem_map_of_mem member
  obtain ⟨q, known, same⟩ := List.mem_map.mp inside
  exact same ▸ all q known

mutual

theorem ContentRule.fits_of_pin? : (c : ContentRule) → {c' : ContentRule} →
    ContentRule.pin? id value c = some c' → c.Fits schema → c'.Fits schema
  | .element own reference attributes content, c', h, fits => by
    obtain ⟨known, declared, inside⟩ := fits
    simp only [ContentRule.pin?] at h
    split at h
    · rename_i pinned found
      cases h
      have targets := ScalarRule.forall_target_of_pinFirst?
        (fun target => ∃ attr, schema.attributeDecl target = .ok attr) found declared
      exact ⟨known, targets, inside⟩
    · obtain ⟨changed, found, rfl⟩ := Option.map_eq_some_iff.mp h
      exact ⟨known, declared, fitsAll_of_pinAmong? content found inside⟩
  | .data r, c', h, fits => by
    simp only [ContentRule.pin?, Option.ite_none_right_eq_some, Option.some.injEq] at h
    obtain ⟨-, rfl⟩ := h
    exact fits
  | .raw r mode, c', h, fits => by
    simp only [ContentRule.pin?, Option.ite_none_right_eq_some, Option.some.injEq] at h
    obtain ⟨-, rfl⟩ := h
    exact fits

theorem ContentRule.fitsAll_of_pinAmong? : (content : List ContentRule) →
    {content' : List ContentRule} → ContentRule.pinAmong? id value content = some content' →
    FitsAll schema content → FitsAll schema content'
  | c :: rest, content', h, fits => by
    obtain ⟨first, others⟩ := fits
    simp only [ContentRule.pinAmong?] at h
    split at h
    · rename_i changed found
      cases h
      exact ⟨fits_of_pin? c found first, others⟩
    · obtain ⟨changed, found, rfl⟩ := Option.map_eq_some_iff.mp h
      exact ⟨first, fitsAll_of_pinAmong? rest found others⟩

end

theorem ElementRule.fits_of_pin? {e e' : ElementRule} (h : e.pin? id value = some e')
    (fits : e.toContent.Fits schema) : e'.toContent.Fits schema :=
  ContentRule.fits_of_pin? e.toContent (by rw [ElementRule.pin?_toContent, h]; rfl) fits

theorem Plan.Fits.of_pin? {p p' : Plan} (fits : p.Fits schema) (h : p.pin? id value = some p') :
    p'.Fits schema := by
  obtain ⟨stylesheet, version, -, -⟩ := Plan.pin?_frame h
  have key : p'.stylesheet = schema.stylesheet ∧ p'.version = schema.version :=
    ⟨stylesheet.trans fits.stylesheet, version.trans fits.version⟩
  cases Plan.pin?_cases h with
  | tree found functions parameters =>
    exact ⟨key.1, key.2, ElementRule.fits_of_pin? found fits.root, functions ▸ fits.functions,
      parameters ▸ fits.parameters⟩
  | function _ root found parameters =>
    have targets := ScalarRule.forall_target_of_pinFirst?
      (fun target => ∃ f, schema.function target = .ok f) found fits.functions
    exact ⟨key.1, key.2, root ▸ fits.root, targets, parameters ▸ fits.parameters⟩
  | parameter _ _ root functions found =>
    have targets := ScalarRule.forall_target_of_pinFirst?
      (fun target => ∃ q, schema.parameter target = .ok q) found fits.parameters
    exact ⟨key.1, key.2, root ▸ fits.root, functions ▸ fits.functions, targets⟩

theorem Plan.Fits.modify {p p' : Plan} {object : ObjectId} (fits : p.Fits schema)
    (h : p.modify id object value = .ok p') : p'.Fits schema := by
  obtain ⟨-, pinned, done, rfl⟩ := Plan.modify_eq_ok h
  have inside := fits.of_pin? done
  exact ⟨inside.stylesheet, inside.version, inside.root, inside.functions, inside.parameters⟩

end Pinning

/-- The object of a value rule is under a constraint, and raw text under none that excludes
anything. -/
def ValueRule.Constrained (schema : Schema) (r : ValueRule) : Prop :=
  ∃ object c, schema.object r.target = .ok object ∧ object.valueConstraint? = some c ∧
    (r.mode = none ∨ c = .anyText)

section Constraints

variable {schema : Schema} {r : ScalarRule}

theorem constrained_attribute {attr : AttributeDecl} (h : schema.attributeDecl r.target = .ok attr) :
    r.toValueRule.Constrained schema := by
  obtain ⟨owner, known⟩ := Schema.attributeDecl_eq_ok.mp h
  exact ⟨_, attr.constraint, known, rfl, .inl rfl⟩

theorem constrained_data {t : ElementType} (h : schema.elementType r.target = .ok t)
    (content : t.contentType = .data) : r.toValueRule.Constrained schema :=
  ⟨_, t.data, Schema.elementType_eq_ok.mp h, by simp [SchemaObject.valueConstraint?, content],
    .inl rfl⟩

theorem constrained_mixed {t : ElementType} (mode : RawMode)
    (h : schema.elementType r.target = .ok t) (content : t.contentType = .mixed) :
    (r.toRawRule mode).Constrained schema :=
  ⟨_, .anyText, Schema.elementType_eq_ok.mp h, by simp [SchemaObject.valueConstraint?, content],
    .inr rfl⟩

theorem constrained_function {f : FunctionDecl} (h : schema.function r.target = .ok f) :
    r.toValueRule.Constrained schema :=
  ⟨_, f.resultType.itemConstraint, Schema.function_eq_ok.mp h, rfl, .inl rfl⟩

theorem constrained_parameter {q : ParameterDecl} (h : schema.parameter r.target = .ok q) :
    r.toValueRule.Constrained schema :=
  ⟨_, q.paramType.itemConstraint, Schema.parameter_eq_ok.mp h, rfl, .inl rfl⟩

mutual

theorem ContentRule.constrained_of_fits : (c : ContentRule) → c.Fits schema →
    ∀ r ∈ c.valueRules, r.Constrained schema
  | .element _ _ attributes content, ⟨_, declared, inside⟩ => by
    refine List.forall_mem_append.mpr ⟨?_, constrained_of_fitsAll content inside⟩
    intro r member
    obtain ⟨a, written, rfl⟩ := List.mem_map.mp member
    obtain ⟨attr, known⟩ := declared a written
    exact constrained_attribute known
  | .data r, ⟨t, known, content⟩ => by
    simpa [valueRules] using constrained_data known content
  | .raw r mode, ⟨t, known, content⟩ => by
    simpa [valueRules] using constrained_mixed mode known content

theorem ContentRule.constrained_of_fitsAll : (content : List ContentRule) →
    ContentRule.FitsAll schema content →
    ∀ r ∈ ContentRule.valueRulesOf content, r.Constrained schema
  | [], _ => nofun
  | c :: rest, ⟨first, others⟩ =>
    List.forall_mem_append.mpr ⟨constrained_of_fits c first, constrained_of_fitsAll rest others⟩

end

theorem Plan.Fits.constrained {p : Plan} (fits : p.Fits schema) :
    ∀ r ∈ p.valueRules, r.Constrained schema := by
  have tree : ∀ r ∈ p.root.valueRules, r.Constrained schema :=
    ContentRule.constrained_of_fits p.root.toContent fits.root
  refine List.forall_mem_append.mpr ⟨List.forall_mem_append.mpr ⟨tree, fun r member => ?_⟩,
    fun r member => ?_⟩
  · obtain ⟨q, written, rfl⟩ := List.mem_map.mp member
    obtain ⟨f, known⟩ := fits.functions q written
    exact constrained_function known
  · obtain ⟨q, written, rfl⟩ := List.mem_map.mp member
    obtain ⟨parameter, known⟩ := fits.parameters q written
    exact constrained_parameter known

end Constraints

namespace Document

open Synthesis (FirstBreak)

variable {ctx : Context} {α β : Type} {rules others : List ValueRule} {x : Except Error α}

/-- A computation gives values to some rules, or breaks down at the first of them that no value can be
made up for. -/
def Writes (ctx : Context) (rules : List ValueRule) (x : Except Error α) : Prop :=
  (∃ a, x = .ok a ∧ ∀ r ∈ rules, ∃ d, describe ctx r = .ok d) ∨
    ∃ cause, FirstBreak ctx rules cause ∧ x = .error (.breakdown cause)

namespace Writes

theorem pure (a : α) : Writes ctx [] (.ok a) := .inl ⟨a, rfl, nofun⟩

theorem describe {r : ValueRule} (h : r.Constrained ctx.schema) : Writes ctx [r] (describe ctx r) := by
  obtain ⟨object, c, known, constraint, -⟩ := h
  rcases Synthesis.describe_cases known constraint with ⟨d, made⟩ | ⟨cause, broken, failed⟩
  · exact .inl ⟨d, made, List.forall_mem_singleton.mpr ⟨d, made⟩⟩
  · exact .inr ⟨cause, .singleton broken, failed⟩

theorem bind {f : α → Except Error β} (first : Writes ctx rules x)
    (next : ∀ a, Writes ctx others (f a)) : Writes ctx (rules ++ others) (x >>= f) := by
  rcases first with ⟨a, rfl, described⟩ | ⟨cause, broken, rfl⟩
  · rcases next a with ⟨b, done, more⟩ | ⟨cause, broken, failed⟩
    · exact .inl ⟨b, done, List.forall_mem_append.mpr ⟨described, more⟩⟩
    · exact .inr ⟨cause, broken.append_left described, failed⟩
  · exact .inr ⟨cause, broken.append_right others, rfl⟩

theorem bind_pure {g : α → β} (first : Writes ctx rules x) :
    Writes ctx rules (x >>= fun a => .ok (g a)) :=
  List.append_nil rules ▸ first.bind fun a => .pure (g a)

theorem behind {a : α} {f : α → Except Error β} (known : x = .ok a) (next : Writes ctx rules (f a)) :
    Writes ctx rules (x >>= f) := by
  subst known
  exact next

end Writes

theorem writeAttributes_writes {rules : List ScalarRule}
    (h : ∀ r ∈ rules, ∃ attr, ctx.schema.attributeDecl r.target = .ok attr) :
    Writes ctx (rules.map ScalarRule.toValueRule) (writeAttributes ctx rules) := by
  induction rules with
  | nil => exact .pure _
  | cons r rest ih =>
    obtain ⟨attr, known⟩ := h r (by simp)
    have first : Writes ctx [r.toValueRule] (writeAttribute ctx r) :=
      .behind known (.bind_pure (.describe (constrained_attribute known)))
    exact .bind first fun _ => .bind_pure (ih fun q member => h q (List.mem_cons_of_mem _ member))

mutual

theorem writeContent_writes : (c : ContentRule) → c.Fits ctx.schema →
    Writes ctx c.valueRules (writeContent ctx c)
  | .element _ _ attributes content, ⟨⟨declared, known⟩, attributes', inside⟩ => by
    rw [writeContent]
    refine .behind known (.bind (writeAttributes_writes attributes') fun written => ?_)
    cases content with
    | nil => exact .pure _
    | cons c rest => exact .bind_pure (writeAll_writes (c :: rest) inside)
  | .data _, ⟨_, known, content⟩ => by
    rw [writeContent]
    exact .bind_pure (.describe (constrained_data known content))
  | .raw _ mode, ⟨_, known, content⟩ => by
    rw [writeContent]
    exact .bind_pure (.describe (constrained_mixed mode known content))

theorem writeAll_writes : (content : List ContentRule) → ContentRule.FitsAll ctx.schema content →
    Writes ctx (ContentRule.valueRulesOf content) (writeAll ctx content)
  | [], _ => .pure _
  | c :: rest, ⟨first, others⟩ => by
    rw [writeAll]
    exact .bind (writeContent_writes c first) fun _ => .bind_pure (writeAll_writes rest others)

end

theorem bindAll_writes {nameOf : ObjectId → Except Error QualifiedName} {rules : List ScalarRule}
    (names : ∀ r ∈ rules, ∃ name, nameOf r.target = .ok name)
    (constrained : ∀ r ∈ rules, r.toValueRule.Constrained ctx.schema) (b : Bindings) :
    Writes ctx (rules.map ScalarRule.toValueRule) (bindAll ctx nameOf b rules) := by
  induction rules generalizing b with
  | nil => exact .pure b
  | cons r rest ih =>
    obtain ⟨name, known⟩ := names r (by simp)
    rw [bindAll]
    refine .behind known (.bind (.describe (constrained r (by simp))) fun d => ?_)
    exact ih (fun q member => names q (List.mem_cons_of_mem _ member))
      (fun q member => constrained q (List.mem_cons_of_mem _ member)) _

def writeParts (ctx : Context) (plan : Plan) : Except Error (Piece × Bindings × Bindings) := do
  let root ← writeContent ctx plan.root.toContent
  let functions ← bindAll ctx (functionName ctx.schema) unbound plan.functions
  let parameters ← bindAll ctx (parameterName ctx.schema) unbound plan.parameters
  return (root, functions, parameters)

theorem writeParts_writes {plan : Plan} (fits : plan.Fits ctx.schema) :
    Writes ctx plan.valueRules (writeParts ctx plan) := by
  have functions : Writes ctx (plan.functions.map ScalarRule.toValueRule)
      (bindAll ctx (functionName ctx.schema) unbound plan.functions) := by
    refine bindAll_writes (fun r member => ?_) (fun r member => ?_) unbound
    · obtain ⟨f, known⟩ := fits.functions r member
      exact ⟨f.name, Outcome.fmap_eq_ok.mpr ⟨f, known, rfl⟩⟩
    · obtain ⟨f, known⟩ := fits.functions r member
      exact constrained_function known
  have parameters : Writes ctx (plan.parameters.map ScalarRule.toValueRule)
      (bindAll ctx (parameterName ctx.schema) unbound plan.parameters) := by
    refine bindAll_writes (fun r member => ?_) (fun r member => ?_) unbound
    · obtain ⟨q, known⟩ := fits.parameters r member
      exact ⟨q.name, Outcome.fmap_eq_ok.mpr ⟨q, known, rfl⟩⟩
    · obtain ⟨q, known⟩ := fits.parameters r member
      exact constrained_parameter known
  rw [Plan.valueRules, List.append_assoc]
  refine .bind (writeContent_writes plan.root.toContent fits.root) fun root => ?_
  exact .bind functions fun fs => .bind_pure parameters

theorem writeParts_eq_ok {plan : Plan} {root : Piece} {functions parameters : Bindings} :
    writeParts ctx plan = .ok (root, functions, parameters) ↔
      Written ctx plan root functions parameters := by
  simp only [writeParts, Outcome.bind_eq_ok]
  constructor
  · rintro ⟨_, tree, _, fs, _, ps, done⟩
    cases done
    exact ⟨tree, fs, ps⟩
  · rintro ⟨tree, fs, ps⟩
    exact ⟨root, tree, functions, fs, parameters, ps, rfl⟩

section Rendering

variable {schema : Schema} {marker : Marker} {settings : ValueSettings} {limits : Limits} {plan : Plan}

theorem render_eq_writeParts (belongs : checkPlan schema plan = .ok ()) :
    render schema marker settings limits plan =
      (writeParts (contextOf schema marker settings plan) plan >>= fun parts =>
        (limits.checkDocumentSize (Text.byteCount (declaration ++ parts.1.text))).map
          fun _ => assemble parts.1 parts.2.1 parts.2.2) := by
  rw [render, belongs, writeParts]
  change (writeContent (contextOf schema marker settings plan) plan.root.toContent >>= _) = _
  cases writeContent (contextOf schema marker settings plan) plan.root.toContent with
  | error e => rfl
  | ok root =>
    change (bindAll (contextOf schema marker settings plan) (functionName schema) unbound _ >>= _) =
      ((bindAll (contextOf schema marker settings plan) (functionName schema) unbound _ >>= _) >>= _)
    cases bindAll (contextOf schema marker settings plan) (functionName schema) unbound plan.functions with
    | error e => rfl
    | ok fs =>
      change (bindAll (contextOf schema marker settings plan) (parameterName schema) unbound _ >>= _) =
        ((bindAll (contextOf schema marker settings plan) (parameterName schema) unbound _ >>= _) >>= _)
      cases bindAll (contextOf schema marker settings plan) (parameterName schema) unbound
        plan.parameters with
      | error e => rfl
      | ok ps =>
        change (limits.checkDocumentSize (Text.byteCount (declaration ++ root.text)) >>= _) =
          (limits.checkDocumentSize (Text.byteCount (declaration ++ root.text))).map _
        cases limits.checkDocumentSize (Text.byteCount (declaration ++ root.text)) <;> rfl

/-- The parts of a plan can be written, and only the size of their document decides whether it is
rendered. -/
def Renders (schema : Schema) (marker : Marker) (settings : ValueSettings) (plan : Plan) : Prop :=
  ∃ root functions parameters,
    Written (contextOf schema marker settings plan) plan root functions parameters ∧
    ∀ limits, render schema marker settings limits plan =
      if (assemble root functions parameters).xml.utf8ByteSize ≤ limits.maxDocumentSize.toNat then
        .ok (assemble root functions parameters)
      else .error (.limit (.document (assemble root functions parameters).xml.utf8ByteSize
        limits.maxDocumentSize.toNat))

theorem render_of_written {root : Piece} {fs ps : Bindings} (belongs : checkPlan schema plan = .ok ())
    (written : Written (contextOf schema marker settings plan) plan root fs ps) :
    render schema marker settings limits plan =
      if (assemble root fs ps).xml.utf8ByteSize ≤ limits.maxDocumentSize.toNat then
        .ok (assemble root fs ps)
      else .error (.limit (.document (assemble root fs ps).xml.utf8ByteSize
        limits.maxDocumentSize.toNat)) := by
  have size : Text.byteCount (declaration ++ root.text) = (assemble root fs ps).xml.utf8ByteSize :=
    Text.byteCount_eq _
  rw [render_eq_writeParts belongs, writeParts_eq_ok.mpr written]
  change (limits.checkDocumentSize (Text.byteCount (declaration ++ root.text))).map _ = _
  rw [Limits.checkDocumentSize, size]
  by_cases small : (assemble root fs ps).xml.utf8ByteSize ≤ limits.maxDocumentSize.toNat
  · rw [if_pos small, if_neg (Nat.not_lt.mpr small)]
    rfl
  · rw [if_neg small, if_pos (Nat.not_le.mp small)]
    rfl

/-- A plan that fits is rendered if its document is small enough, unless no value can be made up for
one of its rules. -/
theorem renders_of_fits (fits : plan.Fits schema) (marker : Marker) (settings : ValueSettings) :
    Renders schema marker settings plan ∨
      ∃ cause, FirstBreak (contextOf schema marker settings plan) plan.valueRules cause ∧
        ∀ limits, render schema marker settings limits plan = .error (.breakdown cause) := by
  have belongs : checkPlan schema plan = .ok () := if_pos ⟨fits.stylesheet, fits.version⟩
  have parts : Writes (contextOf schema marker settings plan) plan.valueRules
      (writeParts (contextOf schema marker settings plan) plan) := writeParts_writes fits
  rcases parts with ⟨⟨root, fs, ps⟩, written, -⟩ | ⟨cause, broken, failed⟩
  · have written := writeParts_eq_ok.mp written
    exact .inl ⟨root, fs, ps, written, fun limits => render_of_written belongs written⟩
  · refine .inr ⟨cause, broken, fun limits => ?_⟩
    rw [render_eq_writeParts belongs, failed]
    rfl

theorem Renders.cases (h : Renders schema marker settings plan) (limits : Limits) :
    (∃ doc, render schema marker settings limits plan = .ok doc) ∨
      ∃ fault, render schema marker settings limits plan = .error (.limit fault) := by
  obtain ⟨root, fs, ps, -, sized⟩ := h
  rw [sized]
  split
  · exact .inl ⟨_, rfl⟩
  · exact .inr ⟨_, rfl⟩

end Rendering

end Document

end TaintScan
