import TaintScan.Document
import TaintScan.Proofs.Outcome
import TaintScan.Proofs.Taint.Ledger

namespace TaintScan

open Synthesis (Context describe)

abbrev Described (ctx : Context) : List ValueRule → List Descriptor → Prop :=
  Outcome.Each (describe ctx)

namespace Synthesis

theorem describe_eq_ok {ctx : Context} {r : ValueRule} {d : Descriptor} :
    describe ctx r = .ok d ↔ ∃ object c, ctx.schema.object r.target = .ok object ∧
      object.valueConstraint? = some c ∧ describeUnder ctx r c = .ok d := by
  simp only [describe]
  cases ctx.schema.object r.target with
  | error e => simp
  | ok object => cases constraint : object.valueConstraint? <;> simp [constraint]

theorem describeUnder_eq_ok {ctx : Context} {r : ValueRule} {c : DataConstraint} {d : Descriptor} :
    describeUnder ctx r c = .ok d ↔
      (∃ value, usableRequest? c r = some value ∧ descriptorOf ctx r value true = d) ∨
      usableRequest? c r = none ∧ ∃ value, madeUp ctx r c = .ok value ∧
        descriptorOf ctx r value false = d := by
  rw [describeUnder]
  cases usableRequest? c r with
  | some value => simp
  | none => cases madeUp ctx r c <;> simp

theorem describe_provenance {ctx : Context} {r : ValueRule} {d : Descriptor}
    (h : describe ctx r = .ok d) : d.rule = r.id ∧ d.object = r.target := by
  obtain ⟨object, c, -, -, described⟩ := describe_eq_ok.mp h
  rcases describeUnder_eq_ok.mp described with ⟨_, -, rfl⟩ | ⟨-, _, -, rfl⟩
  · exact ⟨rfl, rfl⟩
  · exact ⟨rfl, rfl⟩

end Synthesis

namespace Document

variable (ctx : Context)

@[simp] theorem Piece.append_text (p q : Piece) : (p ++ q).text = p.text ++ q.text := rfl

@[simp] theorem Piece.append_values (p q : Piece) : (p ++ q).values = p.values ++ q.values := rfl

@[simp] theorem Piece.plain_text (text : List Char) : (Piece.plain text).text = text := rfl

@[simp] theorem Piece.plain_values (text : List Char) : (Piece.plain text).values = [] := rfl

def attributePiece (name : String) (d : Descriptor) : Piece :=
  ⟨' ' :: name.toList ++ '=' :: '"' :: Markup.escape d.value.toList ++ ['"'], [d]⟩

def elementPiece (name : List Char) (attributes : Piece) (bare : Bool) (inner : Piece) : Piece :=
  if bare then .plain ('<' :: name) ++ attributes ++ .plain ['/', '>']
  else .plain ('<' :: name) ++ attributes ++ .plain ['>'] ++ inner ++
    .plain ('<' :: '/' :: name ++ ['>'])

theorem writeAttribute_eq_ok {r : ScalarRule} {p : Piece} :
    writeAttribute ctx r = .ok p ↔ ∃ attr d, ctx.schema.attributeDecl r.target = .ok attr ∧
      describe ctx r.toValueRule = .ok d ∧ attributePiece attr.name d = p := by
  simp only [writeAttribute, Outcome.bind_eq_ok]
  exact ⟨fun ⟨attr, known, d, made, done⟩ => ⟨attr, d, known, made, Except.ok.inj done⟩,
    fun ⟨attr, d, known, made, done⟩ => ⟨attr, known, d, made, congrArg Except.ok done⟩⟩

theorem writeAttributes_cons_eq_ok {r : ScalarRule} {rest : List ScalarRule} {p : Piece} :
    writeAttributes ctx (r :: rest) = .ok p ↔ ∃ first others, writeAttribute ctx r = .ok first ∧
      writeAttributes ctx rest = .ok others ∧ first ++ others = p := by
  simp only [writeAttributes, Outcome.bind_eq_ok]
  exact ⟨fun ⟨first, h, others, hs, done⟩ => ⟨first, others, h, hs, Except.ok.inj done⟩,
    fun ⟨first, others, h, hs, done⟩ => ⟨first, h, others, hs, congrArg Except.ok done⟩⟩

theorem writeAll_cons_eq_ok {c : ContentRule} {rest : List ContentRule} {p : Piece} :
    writeAll ctx (c :: rest) = .ok p ↔ ∃ first others, writeContent ctx c = .ok first ∧
      writeAll ctx rest = .ok others ∧ first ++ others = p := by
  simp only [writeAll, Outcome.bind_eq_ok]
  exact ⟨fun ⟨first, h, others, hs, done⟩ => ⟨first, others, h, hs, Except.ok.inj done⟩,
    fun ⟨first, others, h, hs, done⟩ => ⟨first, h, others, hs, congrArg Except.ok done⟩⟩

theorem writeContent_element_eq_ok {id : RuleId} {reference : ObjectId}
    {attributes : List ScalarRule} {content : List ContentRule} {p : Piece} :
    writeContent ctx (.element id reference attributes content) = .ok p ↔
      ∃ declared written inner, ctx.schema.elementReference reference = .ok declared ∧
        writeAttributes ctx attributes = .ok written ∧ writeAll ctx content = .ok inner ∧
        elementPiece declared.name.toList written content.isEmpty inner = p := by
  simp only [writeContent, Outcome.bind_eq_ok]
  cases content with
  | nil =>
    exact ⟨fun ⟨declared, known, written, ws, done⟩ =>
        ⟨declared, written, .plain [], known, ws, rfl, Except.ok.inj done⟩,
      fun ⟨declared, written, _, known, ws, _, done⟩ =>
        ⟨declared, known, written, ws, congrArg Except.ok done⟩⟩
  | cons c rest =>
    simp only [List.isEmpty_cons, Bool.false_eq_true, if_false, Outcome.bind_eq_ok]
    exact ⟨fun ⟨declared, known, written, ws, inner, inside, done⟩ =>
        ⟨declared, written, inner, known, ws, inside, Except.ok.inj done⟩,
      fun ⟨declared, written, inner, known, ws, inside, done⟩ =>
        ⟨declared, known, written, ws, inner, inside, congrArg Except.ok done⟩⟩

theorem writeContent_data_eq_ok {r : ScalarRule} {p : Piece} :
    writeContent ctx (.data r) = .ok p ↔ ∃ d, describe ctx r.toValueRule = .ok d ∧
      ⟨Markup.escape d.value.toList, [d]⟩ = p := by
  simp only [writeContent, Outcome.bind_eq_ok]
  exact ⟨fun ⟨d, made, done⟩ => ⟨d, made, Except.ok.inj done⟩,
    fun ⟨d, made, done⟩ => ⟨d, made, congrArg Except.ok done⟩⟩

theorem writeContent_raw_eq_ok {r : ScalarRule} {mode : RawMode} {p : Piece} :
    writeContent ctx (.raw r mode) = .ok p ↔ ∃ d, describe ctx (r.toRawRule mode) = .ok d ∧
      ⟨rawText mode d.value.toList, [d]⟩ = p := by
  simp only [writeContent, Outcome.bind_eq_ok]
  exact ⟨fun ⟨d, made, done⟩ => ⟨d, made, Except.ok.inj done⟩,
    fun ⟨d, made, done⟩ => ⟨d, made, congrArg Except.ok done⟩⟩

variable {ctx}

theorem elementPiece_values (name : List Char) (attributes inner : Piece) {content : List ContentRule}
    (h : writeAll ctx content = .ok inner) :
    (elementPiece name attributes content.isEmpty inner).values =
      attributes.values ++ inner.values := by
  cases content with
  | nil => cases h; simp [elementPiece]
  | cons c rest => simp [elementPiece]

theorem writeAttributes_described {rules : List ScalarRule} {p : Piece}
    (h : writeAttributes ctx rules = .ok p) :
    Described ctx (rules.map ScalarRule.toValueRule) p.values := by
  induction rules generalizing p with
  | nil => cases h; exact Outcome.Each.nil
  | cons r rest ih =>
    obtain ⟨first, others, one, more, rfl⟩ := (writeAttributes_cons_eq_ok ctx).mp h
    obtain ⟨attr, d, -, made, rfl⟩ := (writeAttribute_eq_ok ctx).mp one
    exact .cons made (ih more)

mutual

theorem writeContent_described : (c : ContentRule) → {p : Piece} → writeContent ctx c = .ok p →
    Described ctx c.valueRules p.values
  | .element _ _ _ content, p, h => by
    obtain ⟨_, written, inner, -, attributes, inside, rfl⟩ := (writeContent_element_eq_ok ctx).mp h
    rw [elementPiece_values _ _ _ inside]
    exact (writeAttributes_described attributes).append (writeAll_described content inside)
  | .data _, p, h => by
    obtain ⟨d, made, rfl⟩ := (writeContent_data_eq_ok ctx).mp h
    exact .cons made .nil
  | .raw _ _, p, h => by
    obtain ⟨d, made, rfl⟩ := (writeContent_raw_eq_ok ctx).mp h
    exact .cons made .nil

theorem writeAll_described : (content : List ContentRule) → {p : Piece} →
    writeAll ctx content = .ok p → Described ctx (ContentRule.valueRulesOf content) p.values
  | [], p, h => by cases h; exact Outcome.Each.nil
  | c :: rest, p, h => by
    obtain ⟨first, others, one, more, rfl⟩ := (writeAll_cons_eq_ok ctx).mp h
    exact (writeContent_described c one).append (writeAll_described rest more)

end

theorem bindAll_cons_eq_ok {nameOf : ObjectId → Except Error QualifiedName} {b b' : Bindings}
    {r : ScalarRule} {rest : List ScalarRule} :
    bindAll ctx nameOf b (r :: rest) = .ok b' ↔ ∃ name d, nameOf r.target = .ok name ∧
      describe ctx r.toValueRule = .ok d ∧
      bindAll ctx nameOf ⟨b.named.insert name d.value, b.values ++ [d]⟩ rest = .ok b' := by
  simp only [bindAll, Outcome.bind_eq_ok]
  exact ⟨fun ⟨name, known, d, made, more⟩ => ⟨name, d, known, made, more⟩,
    fun ⟨name, d, known, made, more⟩ => ⟨name, known, d, made, more⟩⟩

abbrev Named (nameOf : ObjectId → Except Error QualifiedName) :
    List ObjectId → List QualifiedName → Prop := Outcome.Each nameOf

def Bindings.extend (b : Bindings) (names : List QualifiedName) (ds : List Descriptor) : Bindings :=
  ⟨(names.zip (ds.map Descriptor.value)).foldl (fun m e => m.insert e.1 e.2) b.named, b.values ++ ds⟩

theorem bindAll_eq_ok {nameOf : ObjectId → Except Error QualifiedName} {rules : List ScalarRule}
    {b b' : Bindings} : bindAll ctx nameOf b rules = .ok b' ↔
      ∃ names ds, Named nameOf (rules.map ScalarRule.target) names ∧
        Described ctx (rules.map ScalarRule.toValueRule) ds ∧ b.extend names ds = b' := by
  induction rules generalizing b with
  | nil =>
    constructor
    · intro h
      cases h
      exact ⟨[], [], Outcome.Each.nil, Outcome.Each.nil, by simp [Bindings.extend]⟩
    · rintro ⟨names, ds, named, described, rfl⟩
      cases named
      cases described
      simp [bindAll, Bindings.extend]
  | cons r rest ih =>
    rw [bindAll_cons_eq_ok]
    constructor
    · rintro ⟨name, d, known, made, more⟩
      obtain ⟨names, ds, named, described, rfl⟩ := ih.mp more
      exact ⟨name :: names, d :: ds, .cons known named, .cons made described,
        by simp [Bindings.extend]⟩
    · rintro ⟨names, ds, named, described, rfl⟩
      cases named with
      | @cons _ name _ names known named =>
        cases described with
        | @cons _ d _ ds made described =>
          exact ⟨name, d, known, made, ih.mpr ⟨names, ds, named, described,
            by simp [Bindings.extend]⟩⟩

def unbound : Bindings := ⟨.empty, []⟩

theorem bindAll_unbound_eq_ok {nameOf : ObjectId → Except Error QualifiedName}
    {rules : List ScalarRule} {b : Bindings} : bindAll ctx nameOf unbound rules = .ok b ↔
      ∃ names ds, Named nameOf (rules.map ScalarRule.target) names ∧
        Described ctx (rules.map ScalarRule.toValueRule) ds ∧
        ⟨.ofEntries (names.zip (ds.map Descriptor.value)), ds⟩ = b := bindAll_eq_ok

theorem bindAll_values {nameOf : ObjectId → Except Error QualifiedName} {rules : List ScalarRule}
    {b : Bindings} (h : bindAll ctx nameOf unbound rules = .ok b) :
    Described ctx (rules.map ScalarRule.toValueRule) b.values := by
  obtain ⟨names, ds, -, described, rfl⟩ := bindAll_unbound_eq_ok.mp h
  exact described

def functionName (schema : Schema) (id : ObjectId) : Except Error QualifiedName :=
  FunctionDecl.name <$> schema.function id

def parameterName (schema : Schema) (id : ObjectId) : Except Error QualifiedName :=
  ParameterDecl.name <$> schema.parameter id

def contextOf (schema : Schema) (marker : Marker) (settings : ValueSettings) (plan : Plan) :
    Context := ⟨schema, marker, settings, plan.valueSeed⟩

def assemble (root : Piece) (functions parameters : Bindings) : Document where
  xml := String.ofList (declaration ++ root.text)
  functionResults := functions.named
  parameters := parameters.named
  ledger := .ofList (root.values ++ functions.values ++ parameters.values)

section Rendering

variable {schema : Schema} {marker : Marker} {settings : ValueSettings} {limits : Limits}
  {plan : Plan} {doc : Document}

structure Written (ctx : Context) (plan : Plan) (root : Piece) (functions parameters : Bindings) :
    Prop where
  tree : writeContent ctx plan.root.toContent = .ok root
  functions : bindAll ctx (functionName ctx.schema) unbound plan.functions = .ok functions
  parameters : bindAll ctx (parameterName ctx.schema) unbound plan.parameters = .ok parameters

theorem render_eq_ok : render schema marker settings limits plan = .ok doc ↔
    checkPlan schema plan = .ok () ∧ ∃ root functions parameters,
      Written (contextOf schema marker settings plan) plan root functions parameters ∧
        limits.checkDocumentSize (Text.byteCount (declaration ++ root.text)) = .ok () ∧
        assemble root functions parameters = doc := by
  simp only [render, Outcome.bind_eq_ok]
  constructor
  · rintro ⟨_, fits, root, tree, fs, functions, ps, parameters, _, small, done⟩
    exact ⟨fits, root, fs, ps, ⟨tree, functions, parameters⟩, small, Except.ok.inj done⟩
  · rintro ⟨fits, root, fs, ps, ⟨tree, functions, parameters⟩, small, done⟩
    exact ⟨(), fits, root, tree, fs, functions, ps, parameters, (), small, congrArg Except.ok done⟩

theorem Written.described {ctx : Context} {root : Piece} {functions parameters : Bindings}
    (h : Written ctx plan root functions parameters) :
    Described ctx plan.valueRules (root.values ++ functions.values ++ parameters.values) :=
  ((writeContent_described _ h.tree).append (bindAll_values h.functions)).append
    (bindAll_values h.parameters)

theorem render_described (h : render schema marker settings limits plan = .ok doc) :
    Described (contextOf schema marker settings plan) plan.valueRules doc.ledger.toList := by
  obtain ⟨-, root, functions, parameters, written, -, rfl⟩ := render_eq_ok.mp h
  simp only [assemble, Ledger.toList_ofList]
  exact written.described

end Rendering

end Document

end TaintScan
