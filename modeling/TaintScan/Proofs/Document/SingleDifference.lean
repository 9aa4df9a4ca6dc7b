import TaintScan.Proofs.Document.Writing
import TaintScan.Proofs.OrderedMap
import TaintScan.Proofs.Plan.Pinning

namespace TaintScan

open Synthesis (Context describe)

namespace Described

variable {ctx : Context} {id : RuleId} {value : String} {earlier later rules pinned : List ValueRule}
  {rule : ValueRule} {ds es : List Descriptor}

theorem pinned_split (h : PinsAt id value earlier rule later rules pinned)
    (one : Described ctx rules ds) (two : Described ctx pinned es) :
    ∃ front d e back, ds = front ++ d :: back ∧ es = front ++ e :: back ∧
      front.length = earlier.length ∧ describe ctx rule = .ok d ∧
      describe ctx (rule.pinned value) = .ok e := by
  rw [h.before] at one
  rw [h.after] at two
  obtain ⟨front, d, back, rfl, before, this, behind⟩ := one.split
  obtain ⟨front', e, back', rfl, before', that, behind'⟩ := two.split
  obtain rfl := before.unique before'
  obtain rfl := behind.unique behind'
  exact ⟨front, d, e, back, rfl, rfl, before.length_eq.symm, this, that⟩

end Described

namespace Document

variable {ctx : Context} {id : RuleId} {value : String}

def DiffersIn (a b text other : List Char) : Prop :=
  ∃ front back, text = front ++ a ++ back ∧ other = front ++ b ++ back

namespace DiffersIn

variable {a b text other : List Char}

theorem prepend (h : DiffersIn a b text other) (more : List Char) :
    DiffersIn a b (more ++ text) (more ++ other) := by
  obtain ⟨front, back, rfl, rfl⟩ := h
  exact ⟨more ++ front, back, by simp, by simp⟩

theorem append (h : DiffersIn a b text other) (more : List Char) :
    DiffersIn a b (text ++ more) (other ++ more) := by
  obtain ⟨front, back, rfl, rfl⟩ := h
  exact ⟨front, back ++ more, by simp, by simp⟩

end DiffersIn

/-- How a value stands in the document: markup of full raw content as it is, all else escaped. -/
def writtenText (mode : Option RawMode) (value : List Char) : List Char :=
  match mode with
  | some mode => rawText mode value
  | none => Markup.escape value

def TextsDiffer (ctx : Context) (id : RuleId) (value : String) (rules : List ValueRule)
    (text other : List Char) : Prop :=
  ∃ rule d e, rules.find? (fun r => r.id == id) = some rule ∧ describe ctx rule = .ok d ∧
    describe ctx (rule.pinned value) = .ok e ∧
    DiffersIn (writtenText rule.mode d.value.toList) (writtenText rule.mode e.value.toList) text other

namespace TextsDiffer

variable {rules : List ValueRule} {text other : List Char}

theorem around (h : TextsDiffer ctx id value rules text other) (front : List ValueRule)
    (others : ∀ r ∈ front, r.id ≠ id) (back : List ValueRule) (before behind : List Char) :
    TextsDiffer ctx id value (front ++ rules ++ back) (before ++ text ++ behind)
      (before ++ other ++ behind) := by
  obtain ⟨rule, d, e, found, this, that, differ⟩ := h
  have absent : front.find? (fun r => r.id == id) = none := by
    rw [List.find?_eq_none]
    intro r member
    simpa using others r member
  refine ⟨rule, d, e, ?_, this, that, (differ.prepend before).append behind⟩
  simp [List.find?_append, absent, found]

end TextsDiffer

theorem writeAttributes_differ {rules pinned : List ScalarRule} {p q : Piece}
    (h : ScalarRule.pinFirst? id value rules = some pinned)
    (one : writeAttributes ctx rules = .ok p) (two : writeAttributes ctx pinned = .ok q) :
    TextsDiffer ctx id value (rules.map ScalarRule.toValueRule) p.text q.text := by
  induction rules generalizing pinned p q with
  | nil => cases h
  | cons r rest ih =>
    obtain ⟨first, others, written, more, rfl⟩ := (writeAttributes_cons_eq_ok ctx).mp one
    by_cases same : r.id = id
    · simp only [ScalarRule.pinFirst?, if_pos same, Option.some.injEq] at h
      subst h
      obtain ⟨first', others', written', more', rfl⟩ := (writeAttributes_cons_eq_ok ctx).mp two
      obtain ⟨attr, d, known, made, rfl⟩ := (writeAttribute_eq_ok ctx).mp written
      obtain ⟨attr', e, known', made', rfl⟩ := (writeAttribute_eq_ok ctx).mp written'
      obtain rfl := Outcome.unique known known'
      obtain rfl := Outcome.unique more more'
      refine ⟨r.toValueRule, d, e, by simp [ScalarRule.toValueRule, same], made, made', ?_⟩
      exact ⟨' ' :: attr.name.toList ++ ['=', '"'], '"' :: others.text,
        by simp [attributePiece, writtenText, ScalarRule.toValueRule],
        by simp [attributePiece, writtenText, ScalarRule.toValueRule]⟩
    · simp only [ScalarRule.pinFirst?, if_neg same, Option.map_eq_some_iff] at h
      obtain ⟨changed, found, rfl⟩ := h
      obtain ⟨first', others', written', more', rfl⟩ := (writeAttributes_cons_eq_ok ctx).mp two
      obtain rfl := Outcome.unique written written'
      have inside := (ih found more more').around [r.toValueRule]
        (by simpa [ScalarRule.toValueRule] using same) [] first.text []
      simpa using inside

mutual

theorem writeContent_differ : (c : ContentRule) → {c' : ContentRule} → {p q : Piece} →
    ContentRule.pin? id value c = some c' → writeContent ctx c = .ok p →
    writeContent ctx c' = .ok q → TextsDiffer ctx id value c.valueRules p.text q.text
  | .element own reference attributes content, c', p, q, h, one, two => by
    obtain ⟨declared, written, inner, known, tag, inside, rfl⟩ :=
      (writeContent_element_eq_ok ctx).mp one
    simp only [ContentRule.pin?] at h
    split at h
    · rename_i pinned found
      cases h
      obtain ⟨declared', written', inner', known', tag', inside', rfl⟩ :=
        (writeContent_element_eq_ok ctx).mp two
      obtain rfl := Outcome.unique known known'
      obtain rfl := Outcome.unique inside inside'
      have differ := writeAttributes_differ found tag tag'
      cases content with
      | nil =>
        have := differ.around [] (by simp) [] ('<' :: declared.name.toList) ['/', '>']
        simpa [elementPiece, ContentRule.valueRules, ContentRule.valueRulesOf] using this
      | cons c rest =>
        have := differ.around [] (by simp) (ContentRule.valueRulesOf (c :: rest))
          ('<' :: declared.name.toList)
          ('>' :: inner.text ++ '<' :: '/' :: declared.name.toList ++ ['>'])
        simpa [elementPiece, ContentRule.valueRules] using this
    · rename_i attributesOut
      obtain ⟨changed, found, rfl⟩ := Option.map_eq_some_iff.mp h
      obtain ⟨declared', written', inner', known', tag', inside', rfl⟩ :=
        (writeContent_element_eq_ok ctx).mp two
      obtain rfl := Outcome.unique known known'
      obtain rfl := Outcome.unique tag tag'
      have differ := writeAll_differ content found inside inside'
      have filled := ContentRule.isEmpty_of_pinAmong? found
      have := differ.around _ (ScalarRule.toValueRule_ids attributesOut) []
        ('<' :: declared.name.toList ++ written.text ++ ['>'])
        ('<' :: '/' :: declared.name.toList ++ ['>'])
      simpa [elementPiece, filled.1, filled.2, ContentRule.valueRules] using this
  | .data r, c', p, q, h, one, two => by
    simp only [ContentRule.pin?, Option.ite_none_right_eq_some, Option.some.injEq] at h
    obtain ⟨same, rfl⟩ := h
    obtain ⟨d, made, rfl⟩ := (writeContent_data_eq_ok ctx).mp one
    obtain ⟨e, made', rfl⟩ := (writeContent_data_eq_ok ctx).mp two
    refine ⟨r.toValueRule, d, e, by simp [ContentRule.valueRules, ScalarRule.toValueRule, same],
      made, made', [], [], ?_, ?_⟩ <;> simp [writtenText, ScalarRule.toValueRule]
  | .raw r mode, c', p, q, h, one, two => by
    simp only [ContentRule.pin?, Option.ite_none_right_eq_some, Option.some.injEq] at h
    obtain ⟨same, rfl⟩ := h
    obtain ⟨d, made, rfl⟩ := (writeContent_raw_eq_ok ctx).mp one
    obtain ⟨e, made', rfl⟩ := (writeContent_raw_eq_ok ctx).mp two
    refine ⟨r.toRawRule mode, d, e, by simp [ContentRule.valueRules, ScalarRule.toRawRule, same],
      made, made', [], [], ?_, ?_⟩ <;> simp [writtenText, ScalarRule.toRawRule]

theorem writeAll_differ : (content : List ContentRule) → {content' : List ContentRule} →
    {p q : Piece} → ContentRule.pinAmong? id value content = some content' →
    writeAll ctx content = .ok p → writeAll ctx content' = .ok q →
    TextsDiffer ctx id value (ContentRule.valueRulesOf content) p.text q.text
  | c :: rest, content', p, q, h, one, two => by
    obtain ⟨first, others, written, more, rfl⟩ := (writeAll_cons_eq_ok ctx).mp one
    simp only [ContentRule.pinAmong?] at h
    split at h
    · rename_i changed found
      cases h
      obtain ⟨first', others', written', more', rfl⟩ := (writeAll_cons_eq_ok ctx).mp two
      obtain rfl := Outcome.unique more more'
      have := (writeContent_differ c found written written').around [] (by simp)
        (ContentRule.valueRulesOf rest) [] others.text
      simpa [ContentRule.valueRulesOf] using this
    · rename_i firstOut
      obtain ⟨changed, found, rfl⟩ := Option.map_eq_some_iff.mp h
      obtain ⟨first', others', written', more', rfl⟩ := (writeAll_cons_eq_ok ctx).mp two
      obtain rfl := Outcome.unique written written'
      have := (writeAll_differ rest found more more').around _
        (ContentRule.ids_of_pin?_none c firstOut) [] first.text []
      simpa [ContentRule.valueRulesOf] using this

end

theorem bindAll_differ {nameOf : ObjectId → Except Error QualifiedName}
    {rules pinned : List ScalarRule} {b b' : Bindings} {earlier later : List ValueRule}
    {rule : ValueRule} (h : ScalarRule.pinFirst? id value rules = some pinned)
    (split : PinsAt id value earlier rule later (rules.map ScalarRule.toValueRule)
      (pinned.map ScalarRule.toValueRule))
    (one : bindAll ctx nameOf unbound rules = .ok b)
    (two : bindAll ctx nameOf unbound pinned = .ok b') :
    ∃ name, nameOf rule.target = .ok name ∧ b.named.AgreeOff name b'.named ∧
      (describe ctx rule = describe ctx (rule.pinned value) → b = b') := by
  obtain ⟨names, ds, named, described, rfl⟩ := bindAll_unbound_eq_ok.mp one
  obtain ⟨names', es, named', described', rfl⟩ := bindAll_unbound_eq_ok.mp two
  rw [ScalarRule.targets_of_pinFirst? h] at named'
  obtain rfl := named.unique named'
  obtain ⟨front, d, e, back, rfl, rfl, length, this, that⟩ :=
    described.pinned_split split described'
  have targets : rules.map ScalarRule.target =
      earlier.map ValueRule.target ++ rule.target :: later.map ValueRule.target := by
    have whole := congrArg (List.map ValueRule.target) split.before
    simpa [ScalarRule.toValueRule, Function.comp_def] using whole
  rw [targets] at named
  obtain ⟨before, name, behind, rfl, others, known, -⟩ := named.split
  refine ⟨name, known, ?_, fun same => ?_⟩
  · have places : before.length = (front.map Descriptor.value).length := by
      rw [List.length_map, length, ← others.length_eq, List.length_map]
    simp only [List.map_append, List.map_cons, List.zip_append places, List.zip_cons_cons]
    exact .ofEntries _ _ _ _
  · rw [this, that] at same
    rw [Except.ok.inj same]

end Document

namespace Plan

inductive Part
  | tree
  | function
  | parameter
deriving DecidableEq

def partAt (p : Plan) (index : Nat) : Part :=
  if index < p.root.valueRules.length then .tree
  else if index < p.root.valueRules.length + p.functions.length then .function
  else .parameter

end Plan

namespace Document

/-- How the value of a rule stands in the text of a document. Results of functions and values of
parameters do not. -/
def writtenForm (part : Plan.Part) (mode : Option RawMode) (value : String) : String :=
  match part with
  | .tree => String.ofList (writtenText mode value.toList)
  | .function => ""
  | .parameter => ""

def SameBut (excepted : QualifiedName → Prop) (m n : OrderedMap QualifiedName String) : Prop :=
  m.keys = n.keys ∧ ∀ name, m.get? name ≠ n.get? name → excepted name

/-- Two documents of a plan differ in the value of one of its rules, at most. -/
structure DifferAt (schema : Schema) (plan : Plan) (index : Nat) (rule : ValueRule)
    (one two : Document) : Prop where
  length : one.ledger.toList.length = two.ledger.toList.length
  elsewhere : ∀ i, i ≠ index → one.ledger.toList[i]? = two.ledger.toList[i]?
  text : ∃ d e front back, one.ledger.toList[index]? = some d ∧
    two.ledger.toList[index]? = some e ∧
    one.xml = front ++ writtenForm (plan.partAt index) rule.mode d.value ++ back ∧
    two.xml = front ++ writtenForm (plan.partAt index) rule.mode e.value ++ back
  functions : SameBut (fun name => plan.partAt index = .function ∧
    functionName schema rule.target = .ok name) one.functionResults two.functionResults
  parameters : SameBut (fun name => plan.partAt index = .parameter ∧
    parameterName schema rule.target = .ok name) one.parameters two.parameters

def Rejects (schema : Schema) (rule : ValueRule) (value : String) : Prop :=
  ∀ object c, schema.object rule.target = .ok object → object.valueConstraint? = some c →
    c.accepts value = false ∨ rule.mode = some .full ∧ Markup.isFragment value = false

theorem SameBut.refl (excepted : QualifiedName → Prop) (m : OrderedMap QualifiedName String) :
    SameBut excepted m m := ⟨rfl, fun _ differ => absurd rfl differ⟩

theorem sameBut_of_agreeOff {excepted : QualifiedName → Prop}
    {m n : OrderedMap QualifiedName String} {name : QualifiedName} (h : m.AgreeOff name n)
    (this : excepted name) : SameBut excepted m n := by
  refine ⟨h.keys, fun other differ => ?_⟩
  by_cases same : other = name
  · exact same ▸ this
  · exact absurd (h.values other same) differ

structure PartsDiffer (schema : Schema) (part : Plan.Part) (rule : ValueRule) (d e : Descriptor)
    (one two : Document) : Prop where
  text : ∃ front back, one.xml = front ++ writtenForm part rule.mode d.value ++ back ∧
    two.xml = front ++ writtenForm part rule.mode e.value ++ back
  functions : SameBut (fun name => part = .function ∧ functionName schema rule.target = .ok name)
    one.functionResults two.functionResults
  parameters : SameBut (fun name => part = .parameter ∧ parameterName schema rule.target = .ok name)
    one.parameters two.parameters
  settled : d = e → one.functionResults = two.functionResults ∧ one.parameters = two.parameters

def OnePinned (ctx : Context) (id : RuleId) (value : String) (p p' : Plan) (one two : Document) :
    Prop :=
  ∃ earlier rule later, PinsAt id value earlier rule later p.valueRules p'.valueRules ∧
    ∀ d e, describe ctx rule = .ok d → describe ctx (rule.pinned value) = .ok e →
      PartsDiffer ctx.schema (p.partAt earlier.length) rule d e one two

section Parts

variable {ctx : Context} {id : RuleId} {value : String} {p p' : Plan} {root root' : Piece}
  {functions functions' parameters parameters' : Bindings} {earlier later : List ValueRule}
  {rule : ValueRule} {d e : Descriptor}

theorem text_of_textsDiffer {rules : List ValueRule} (h : TextsDiffer ctx id value rules root.text root'.text)
    (found : rules.find? (fun r => r.id == id) = some rule) (this : describe ctx rule = .ok d)
    (that : describe ctx (rule.pinned value) = .ok e) :
    ∃ front back, (assemble root functions parameters).xml =
        front ++ writtenForm .tree rule.mode d.value ++ back ∧
      (assemble root' functions' parameters').xml =
        front ++ writtenForm .tree rule.mode e.value ++ back := by
  obtain ⟨rule', d', e', found', this', that', front, back, one, two⟩ := h
  obtain rfl : rule = rule' := Option.some.inj (found.symm.trans found')
  obtain rfl := Outcome.unique this this'
  obtain rfl := Outcome.unique that that'
  refine ⟨String.ofList (declaration ++ front), String.ofList back, ?_, ?_⟩
  · simp [assemble, writtenForm, one, String.append_assoc]
  · simp [assemble, writtenForm, two, String.append_assoc]

theorem Written.tree_differ (one : Written ctx p root functions parameters)
    (two : Written ctx p' root' functions' parameters') (found : p.root.pin? id value = some p'.root)
    (functionsSame : p'.functions = p.functions) (parametersSame : p'.parameters = p.parameters) :
    OnePinned ctx id value p p' (assemble root functions parameters)
      (assemble root' functions' parameters') := by
  have pinned : p.root.toContent.pin? id value = some p'.root.toContent := by
    rw [ElementRule.pin?_toContent, found]
    rfl
  have secondFunctions := two.functions
  have secondParameters := two.parameters
  rw [functionsSame] at secondFunctions
  rw [parametersSame] at secondParameters
  obtain rfl := Outcome.unique one.functions secondFunctions
  obtain rfl := Outcome.unique one.parameters secondParameters
  obtain ⟨earlier, rule, later, split⟩ := (ElementRule.pin?_pinsFirst found).split
  have place : p.partAt earlier.length = .tree := if_pos split.length_lt
  have whole := (split.append (p.functions.map ScalarRule.toValueRule)).append
    (p.parameters.map ScalarRule.toValueRule)
  have after : p'.valueRules = p'.root.valueRules ++ p.functions.map ScalarRule.toValueRule ++
      p.parameters.map ScalarRule.toValueRule := by
    rw [Plan.valueRules, functionsSame, parametersSame]
  rw [← after] at whole
  refine ⟨earlier, rule, _, whole, fun d e this that => ?_⟩
  rw [place]
  exact ⟨text_of_textsDiffer (writeContent_differ _ pinned one.tree two.tree) split.find?_eq
    this that, .refl _ _, .refl _ _, fun _ => ⟨rfl, rfl⟩⟩

theorem Written.function_differ (one : Written ctx p root functions parameters)
    (two : Written ctx p' root' functions' parameters') (absent : p.root.pin? id value = none)
    (rootSame : p'.root = p.root) (found : ScalarRule.pinFirst? id value p.functions = some p'.functions)
    (parametersSame : p'.parameters = p.parameters) :
    OnePinned ctx id value p p' (assemble root functions parameters)
      (assemble root' functions' parameters') := by
  have secondTree := two.tree
  have secondParameters := two.parameters
  rw [rootSame] at secondTree
  rw [parametersSame] at secondParameters
  obtain rfl := Outcome.unique one.tree secondTree
  obtain rfl := Outcome.unique one.parameters secondParameters
  obtain ⟨earlier, rule, later, split⟩ := (ScalarRule.toValueRule_pinsFirst found).split
  obtain ⟨name, known, agree, same⟩ := bindAll_differ found split one.functions two.functions
  have place : p.partAt (p.root.valueRules ++ earlier).length = .function := by
    have inside := split.length_lt
    rw [List.length_map] at inside
    rw [Plan.partAt, List.length_append, if_neg (by omega), if_pos (by omega)]
  have whole := (split.prepend (ElementRule.ids_of_pin?_none absent)).append
    (p.parameters.map ScalarRule.toValueRule)
  have after : p'.valueRules = p.root.valueRules ++ p'.functions.map ScalarRule.toValueRule ++
      p.parameters.map ScalarRule.toValueRule := by
    rw [Plan.valueRules, rootSame, parametersSame]
  rw [← after] at whole
  refine ⟨_, rule, _, whole, fun d e this that => ?_⟩
  rw [place]
  refine ⟨⟨(assemble root functions parameters).xml, "", ?_, ?_⟩,
    sameBut_of_agreeOff agree ⟨rfl, known⟩, .refl _ _, fun equal => ?_⟩
  · simp [writtenForm]
  · simp [assemble, writtenForm]
  · have bindings := same (by rw [this, that, equal])
    exact ⟨congrArg Bindings.named bindings, rfl⟩

theorem Written.parameter_differ (one : Written ctx p root functions parameters)
    (two : Written ctx p' root' functions' parameters') (absent : p.root.pin? id value = none)
    (absentToo : ScalarRule.pinFirst? id value p.functions = none) (rootSame : p'.root = p.root)
    (functionsSame : p'.functions = p.functions)
    (found : ScalarRule.pinFirst? id value p.parameters = some p'.parameters) :
    OnePinned ctx id value p p' (assemble root functions parameters)
      (assemble root' functions' parameters') := by
  have secondTree := two.tree
  have secondFunctions := two.functions
  rw [rootSame] at secondTree
  rw [functionsSame] at secondFunctions
  obtain rfl := Outcome.unique one.tree secondTree
  obtain rfl := Outcome.unique one.functions secondFunctions
  obtain ⟨earlier, rule, later, split⟩ := (ScalarRule.toValueRule_pinsFirst found).split
  obtain ⟨name, known, agree, same⟩ := bindAll_differ found split one.parameters two.parameters
  have place : p.partAt
      (p.root.valueRules ++ p.functions.map ScalarRule.toValueRule ++ earlier).length =
        .parameter := by
    rw [Plan.partAt, List.length_append, List.length_append, List.length_map, if_neg (by omega),
      if_neg (by omega)]
  have others : ∀ r ∈ p.root.valueRules ++ p.functions.map ScalarRule.toValueRule, r.id ≠ id := by
    intro r member
    rcases List.mem_append.mp member with member | member
    · exact ElementRule.ids_of_pin?_none absent r member
    · exact ScalarRule.toValueRule_ids absentToo r member
  have whole := split.prepend others
  have after : p'.valueRules = p.root.valueRules ++ p.functions.map ScalarRule.toValueRule ++
      p'.parameters.map ScalarRule.toValueRule := by
    rw [Plan.valueRules, rootSame, functionsSame]
  rw [← after] at whole
  refine ⟨_, rule, _, whole, fun d e this that => ?_⟩
  rw [place]
  refine ⟨⟨(assemble root functions parameters).xml, "", ?_, ?_⟩, .refl _ _,
    sameBut_of_agreeOff agree ⟨rfl, known⟩, fun equal => ?_⟩
  · simp [writtenForm]
  · simp [assemble, writtenForm]
  · have bindings := same (by rw [this, that, equal])
    exact ⟨rfl, congrArg Bindings.named bindings⟩

end Parts

theorem Written.onePinned {ctx : Context} {id : RuleId} {value : String} {p p' : Plan}
    {root root' : Piece} {functions functions' parameters parameters' : Bindings}
    (h : Plan.PinnedIn id value p p') (one : Written ctx p root functions parameters)
    (two : Written ctx p' root' functions' parameters') :
    OnePinned ctx id value p p' (assemble root functions parameters)
      (assemble root' functions' parameters') := by
  cases h with
  | tree found functions parameters => exact one.tree_differ two found functions parameters
  | function absent root found parameters =>
    exact one.function_differ two absent root found parameters
  | parameter absent absentToo root functions found =>
    exact one.parameter_differ two absent absentToo root functions found

theorem usableRequest?_of_rejects {ctx : Context} {rule : ValueRule} {value : String}
    {object : SchemaObject} {c : DataConstraint} (refused : Rejects ctx.schema rule value)
    (known : ctx.schema.object rule.target = .ok object) (constraint : object.valueConstraint? = some c) :
    Synthesis.usableRequest? c (rule.pinned value) = none := by
  have out : Synthesis.acceptsValue c rule.mode value = false := by
    rcases refused object c known constraint with out | ⟨full, out⟩
    · simp [Synthesis.acceptsValue, out]
    · simp [Synthesis.acceptsValue, full, out]
  simp [Synthesis.usableRequest?, ValueRule.pinned, out]

theorem describe_pinned_of_rejects {ctx : Context} {rule : ValueRule} {value : String}
    (free : rule.requested = none) (refused : Rejects ctx.schema rule value) :
    describe ctx rule = describe ctx (rule.pinned value) := by
  simp only [describe]
  cases known : ctx.schema.object rule.target with
  | error e => simp [ValueRule.pinned, known]
  | ok object =>
    cases constraint : object.valueConstraint? with
    | none => simp [ValueRule.pinned, known, constraint]
    | some c =>
      have before : Synthesis.usableRequest? c rule = none := by
        simp [Synthesis.usableRequest?, free]
      have after := usableRequest?_of_rejects refused known constraint
      have same : (rule.pinned value).target = rule.target := rfl
      simp only [same, known, constraint, Synthesis.describeUnder, before, after]
      rfl

theorem getElem?_of_ne_length {α : Type} {front back : List α} {a b : α} {i : Nat}
    (other : i ≠ front.length) : (front ++ a :: back)[i]? = (front ++ b :: back)[i]? := by
  rcases Nat.lt_or_gt_of_ne other with left | right
  · rw [List.getElem?_append_left left, List.getElem?_append_left left]
  · obtain ⟨k, rfl⟩ : ∃ k, i = front.length + (k + 1) := ⟨i - front.length - 1, by omega⟩
    rw [List.getElem?_append_right (by omega), List.getElem?_append_right (by omega),
      Nat.add_sub_cancel_left, List.getElem?_cons_succ, List.getElem?_cons_succ]

theorem assemble_eq {root root' : Piece} {functions functions' parameters parameters' : Bindings}
    (xml : (assemble root functions parameters).xml = (assemble root' functions' parameters').xml)
    (results : functions.named = functions'.named) (values : parameters.named = parameters'.named)
    (ledger : (assemble root functions parameters).ledger.toList =
      (assemble root' functions' parameters').ledger.toList) :
    assemble root functions parameters = assemble root' functions' parameters' := by
  simp only [assemble, Ledger.toList_ofList] at xml ledger
  simp only [assemble, xml, results, values, ledger]

section Rendering

variable {schema : Schema} {marker : Marker} {settings : ValueSettings} {limits : Limits}
  {plan modified : Plan} {id : RuleId} {object : ObjectId} {value : String} {before after : Document}

/-- The documents of a plan and of the plan with a value pinned differ in the first value rule of
the identity only, and not at all when its object refuses the value. -/
theorem modify_changes_one_value (edit : plan.modify id object value = .ok modified)
    (one : render schema marker settings limits plan = .ok before)
    (two : render schema marker settings limits modified = .ok after) :
    ∃ earlier rule later, plan.valueRules = earlier ++ rule :: later ∧ rule.id = id ∧
      (∀ r ∈ earlier, r.id ≠ id) ∧ DifferAt schema plan earlier.length rule before after ∧
      (rule.requested = none → Rejects schema rule value → before = after) := by
  obtain ⟨-, pinned, done, rfl⟩ := Plan.modify_eq_ok edit
  have seed := (Plan.pin?_frame done).2.2.1
  have ledgers := render_described one
  have ledgers' := render_described two
  obtain ⟨-, root, functions, parameters, written, -, rfl⟩ := render_eq_ok.mp one
  obtain ⟨-, root', functions', parameters', written', -, rfl⟩ := render_eq_ok.mp two
  have context : contextOf schema marker settings
      { pinned with requestedValues := plan.requestedValues.insert object value } =
        contextOf schema marker settings plan := by simp [contextOf, seed]
  rw [context] at written' ledgers'
  have again : Written (contextOf schema marker settings plan) pinned root' functions' parameters' :=
    ⟨written'.tree, written'.functions, written'.parameters⟩
  obtain ⟨earlier, rule, later, split, differ⟩ := written.onePinned (Plan.pin?_cases done) again
  obtain ⟨front, d, e, back, first, second, length, this, that⟩ :=
    ledgers.pinned_split split ledgers'
  obtain ⟨⟨before, behind, text, text'⟩, named, named', settled⟩ := differ d e this that
  refine ⟨earlier, rule, later, split.before, split.same, split.first, ?_, fun free refused => ?_⟩
  · refine ⟨by rw [first, second]; simp, fun i other => ?_,
      ⟨d, e, before, behind, ?_, ?_, text, text'⟩, named, named'⟩
    · rw [first, second]
      exact getElem?_of_ne_length (length ▸ other)
    · rw [first, ← length]
      simp
    · rw [second, ← length]
      simp
  · have equal : d = e := by
      have same : describe (contextOf schema marker settings plan) rule = _ :=
        describe_pinned_of_rejects free refused
      rw [this, that] at same
      exact Except.ok.inj same
    subst equal
    exact assemble_eq (text.trans text'.symm) (settled rfl).1 (settled rfl).2
      (first.trans second.symm)

end Rendering

section Trial

def trialObject (n : Nat) : ObjectId := ⟨⟨BitVec.ofNat 128 n⟩⟩

def trialRule (n : Nat) : RuleId := ⟨⟨BitVec.ofNat 128 n⟩⟩

def trialType : ElementType :=
  (ElementType.ofData (trialObject 1) "item"
    (.withRange (.ofType .integer) (some 5) (some 5))).withAttribute
      (.mandatory (trialObject 2) "name" .anyText)

def trialSchema : Schema :=
  ⟨"item.xsl", 1, [trialType], [trialType.reference (trialObject 3) "item"], [], []⟩

def trialMarker : Marker := ⟨"zq", 6, by decide, by decide⟩

/-- The attribute and the data share an identity: the data decides what may be pinned, and the
attribute is pinned. -/
def trialPlan : Plan where
  stylesheet := "item.xsl"
  version := 1
  valueSeed := 7
  root := ⟨trialRule 10, trialObject 3, [⟨trialRule 11, trialObject 2, some "old"⟩],
    [.data (.fresh (trialRule 11) (trialObject 1))]⟩
  functions := []
  parameters := []
  requestedValues := .empty

theorem modify_changes_one_value_shared_identity :
    ∃ modified before after,
      trialPlan.modify (trialRule 11) (trialObject 1) "a<b" = .ok modified ∧
      render trialSchema trialMarker .standard .standard trialPlan = .ok before ∧
      render trialSchema trialMarker .standard .standard modified = .ok after ∧
      ∃ earlier rule later, trialPlan.valueRules = earlier ++ rule :: later ∧
        rule.id = trialRule 11 ∧ (∀ r ∈ earlier, r.id ≠ trialRule 11) ∧
        DifferAt trialSchema trialPlan earlier.length rule before after ∧
        (rule.requested = none → Rejects trialSchema rule "a<b" → before = after) := by
  obtain ⟨modified, edit⟩ : ∃ modified,
      trialPlan.modify (trialRule 11) (trialObject 1) "a<b" = .ok modified := ⟨_, rfl⟩
  have second : (render trialSchema trialMarker .standard .standard modified).isOk = true := by
    cases edit
    decide +kernel
  obtain ⟨before, one⟩ := Outcome.exists_of_isOk
    (x := render trialSchema trialMarker .standard .standard trialPlan) (by decide +kernel)
  obtain ⟨after, two⟩ := Outcome.exists_of_isOk second
  exact ⟨modified, before, after, edit, one, two, modify_changes_one_value edit one two⟩

end Trial

end Document

end TaintScan
