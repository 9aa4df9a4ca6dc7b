import TaintScan.Proofs.Document.Readback
import TaintScan.Proofs.Markup.Grammar
import TaintScan.Proofs.Taint.Satisfaction

namespace TaintScan

open Synthesis (Context describe describe_eq_ok)
open TaintScan.Random (Ensures)
open Markup (Escaped IsContent IsElement WellFormed RawAttribute)

namespace Synthesis

variable {ctx : Context} {marker : Marker} {settings : ValueSettings}

theorem Plain.content {text rest : List Char} {tags : List (List String)} (h : Plain text)
    (behind : IsContent tags rest) : IsContent tags (text ++ rest) := by
  have escaped : Escaped (text ++ []) := Escaped.of_plain trivial h.2
  rw [List.append_nil] at escaped
  exact .text escaped behind

theorem content_of_template {lead token : List Char} (before : Plain lead) (inside : Plain token) :
    ∀ t ∈ templates, IsContent [[]] (lead ++ t.1.toList ++ token ++ t.2.toList) := by
  have unmarked : ∀ a ∈ ([] : List RawAttribute), a.Proper := List.forall_mem_nil _
  have pair (name : String) (named : Name.isQualified name.toList = true) :
      IsContent [[]] (lead ++ (paired name).1.toList ++ token ++ (paired name).2.toList) := by
    have element := @IsElement.paired name.toList [] [] _ named unmarked (inside.content .nil)
    simpa [paired] using before.content (.element element .nil)
  have alone : IsElement [[]] (bare "br").toList := by
    have element := @IsElement.alone "br".toList [] (by decide) unmarked
    simpa [bare] using element
  have listed : templates = [paired "b", paired "i", paired "em", paired "span", (bare "br", ""),
      ("", bare "br")] := by decide
  rw [listed]
  simp only [List.forall_mem_cons]
  refine ⟨pair "b" (by decide), pair "i" (by decide), pair "em" (by decide), pair "span" (by decide),
    ?_, ?_, List.forall_mem_nil _⟩
  · simpa using before.content (.element alone (inside.content .nil))
  · simpa using before.content (inside.content (.element alone .nil))

theorem drawMarkup_content : Ensures (drawMarkup marker settings) (IsContent [[]]) := by
  refine drawMarkup_shape.mono (fun text framed => ?_) fun _ _ => trivial
  obtain ⟨lead, token, t, chosen, before, inside, rfl⟩ := framed
  exact content_of_template before inside t chosen

theorem drawValue_full : Ensures (drawValue marker settings .anyText (some .full)) fun v =>
    IsContent [[]] v.toList := by
  have fresh : Ensures (String.ofList <$> drawMarkup marker settings) fun v =>
      IsContent [[]] v.toList := .map drawMarkup_content fun text content => by simpa using content
  rw [drawValue_of_unlisted rfl]
  exact fresh

theorem describe_full {r : ValueRule} {d : Descriptor} (made : describe ctx r = .ok d)
    (constrained : r.Constrained ctx.schema) (full : r.mode = some .full)
    (unasked : r.requested = none) : IsContent [[]] d.value.toList := by
  obtain ⟨object, c, known, constraint, described⟩ := describe_eq_ok.mp made
  obtain ⟨object', c', known', constraint', shape⟩ := constrained
  rw [known] at known'
  cases known'
  rw [constraint] at constraint'
  cases constraint'
  obtain rfl : c = .anyText := shape.resolve_left (by simp [full])
  have none : usableRequest? .anyText r = none := by simp [usableRequest?, unasked]
  have drawn := describeUnder_value described
  rw [valueFrom, none, full] at drawn
  exact drawValue_full.of_eq_ok drawn

end Synthesis

def Unasked (schema : Schema) (rules : List ValueRule) : Prop :=
  ∀ r ∈ rules, r.mode = some .full → r.requested = none ∧ r.Constrained schema

def ElementRule.attributeNames (schema : Schema) (e : ElementRule) : List String :=
  e.attributes.map fun r => schema.attributeName r.target

namespace Document

variable {ctx : Context}

theorem writeAttributes_proper (checked : ctx.schema.check = .ok ()) {rules : List ScalarRule}
    {p : Piece} (written : writeAttributes ctx rules = .ok p) :
    ∃ as : List RawAttribute, p.text = as.flatMap RawAttribute.written ∧ (∀ a ∈ as, a.Proper) ∧
      as.map RawAttribute.name = rules.map fun r => ctx.schema.attributeName r.target := by
  induction rules generalizing p with
  | nil =>
    cases written
    exact ⟨[], rfl, nofun, rfl⟩
  | cons r rest ih =>
    obtain ⟨first, others, one, behind, rfl⟩ := (writeAttributes_cons_eq_ok ctx).mp written
    obtain ⟨attr, d, known, -, rfl⟩ := (writeAttribute_eq_ok ctx).mp one
    obtain ⟨as, text, proper, names⟩ := ih behind
    have this := Markup.proper_escape (Schema.isQualified_of_attributeDecl checked known)
      d.value.toList
    refine ⟨⟨attr.name.toList, Markup.escape d.value.toList⟩ :: as, ?_, ?_, ?_⟩
    · rw [Piece.append_text, text]
      simp [attributePiece, RawAttribute.written]
    · exact List.forall_mem_cons.mpr ⟨this, proper⟩
    · rw [List.map_cons, names, List.map_cons, Schema.attributeName_eq known, RawAttribute.name,
        String.ofList_toList]

/-- Only the tags of element rules have attributes, in the order of the rules. -/
def Bearing (schema : Schema) (tags : List (List String)) (elements : List ElementRule) : Prop :=
  tags.filter (· ≠ []) = (elements.map (ElementRule.attributeNames schema)).filter (· ≠ [])

namespace Bearing

variable {schema : Schema} {tags more : List (List String)} {elements others : List ElementRule}

theorem cons (h : Bearing schema tags elements) (e : ElementRule) :
    Bearing schema (e.attributeNames schema :: tags) (e :: elements) := by
  rw [Bearing, List.map_cons, List.filter_cons, List.filter_cons, h]

theorem append (h : Bearing schema tags elements) (h' : Bearing schema more others) :
    Bearing schema (tags ++ more) (elements ++ others) := by
  rw [Bearing, List.map_append, List.filter_append, List.filter_append, h, h']

theorem nodup_iff (h : Bearing schema tags elements) : (∀ names ∈ tags, names.Nodup) ↔
    ∀ e ∈ elements, (e.attributeNames schema).Nodup := by
  -- A tag without attributes gives no name twice.
  have given (lists : List (List String)) :
      (∀ names ∈ lists.filter (· ≠ []), names.Nodup) ↔ ∀ names ∈ lists, names.Nodup := by
    constructor
    · intro all names member
      by_cases none : names = []
      · rw [none]
        exact List.nodup_nil
      · exact all names (List.mem_filter.mpr ⟨member, by simpa using none⟩)
    · exact fun all names member => all names (List.mem_filter.mp member).1
  rw [← given tags, h, given]
  simp

end Bearing

theorem element_of_written (checked : ctx.schema.check = .ok ()) {id : RuleId} {reference : ObjectId}
    {attributes : List ScalarRule} {content : List ContentRule} {p : Piece}
    (written : writeContent ctx (.element id reference attributes content) = .ok p)
    (within : ∀ inner, writeAll ctx content = .ok inner → ∃ tags, IsContent tags inner.text ∧
      Bearing ctx.schema tags (ContentRule.elementsOf content)) :
    ∃ tags, IsElement tags p.text ∧
      Bearing ctx.schema tags (ContentRule.element id reference attributes content).elements := by
  obtain ⟨declared, ws, inner, known, tag, inside, rfl⟩ := (writeContent_element_eq_ok ctx).mp written
  obtain ⟨as, text, proper, names⟩ := writeAttributes_proper checked tag
  have named := Schema.isQualified_of_elementReference checked known
  cases content with
  | nil =>
    have none : Bearing ctx.schema [] [] := rfl
    have own := none.cons ⟨id, reference, attributes, []⟩
    rw [ElementRule.attributeNames, ← names] at own
    refine ⟨_, ?_, own⟩
    simpa [elementPiece, text] using IsElement.alone named proper
  | cons c rest =>
    obtain ⟨tags, nested, bearing⟩ := within inner inside
    have own := bearing.cons ⟨id, reference, attributes, c :: rest⟩
    rw [ElementRule.attributeNames, ← names] at own
    refine ⟨_, ?_, own⟩
    simpa [elementPiece, text] using IsElement.paired named proper nested

mutual

theorem content_of_written (checked : ctx.schema.check = .ok ()) : (c : ContentRule) → {p : Piece} →
    writeContent ctx c = .ok p → Unasked ctx.schema c.valueRules →
    ∃ tags, IsContent tags p.text ∧ Bearing ctx.schema tags c.elements
  | .element id reference attributes content, p, h, unasked => by
    have below := (List.forall_mem_append.mp unasked).2
    obtain ⟨tags, element, bearing⟩ := element_of_written checked h fun inner inside =>
      contents_of_written checked content inside below
    refine ⟨tags, ?_, bearing⟩
    simpa using IsContent.element element .nil
  | .data r, p, h, _ => by
    obtain ⟨d, -, rfl⟩ := (writeContent_data_eq_ok ctx).mp h
    refine ⟨[], ?_, rfl⟩
    simpa using IsContent.text (Markup.escaped_escape d.value.toList) .nil
  | .raw r mode, p, h, unasked => by
    obtain ⟨d, made, rfl⟩ := (writeContent_raw_eq_ok ctx).mp h
    cases mode with
    | full =>
      obtain ⟨none, constrained⟩ := unasked (r.toRawRule .full) List.mem_cons_self rfl
      exact ⟨[[]], Synthesis.describe_full made constrained rfl none, rfl⟩
    | restricted =>
      refine ⟨[], ?_, rfl⟩
      simpa [rawText] using IsContent.text (Markup.escaped_escape d.value.toList) .nil

theorem contents_of_written (checked : ctx.schema.check = .ok ()) : (content : List ContentRule) →
    {p : Piece} → writeAll ctx content = .ok p →
    Unasked ctx.schema (ContentRule.valueRulesOf content) →
    ∃ tags, IsContent tags p.text ∧ Bearing ctx.schema tags (ContentRule.elementsOf content)
  | [], p, h, _ => by
    cases h
    exact ⟨[], .nil, rfl⟩
  | c :: rest, p, h, unasked => by
    obtain ⟨first, others, one, more, rfl⟩ := (writeAll_cons_eq_ok ctx).mp h
    obtain ⟨here, there⟩ := List.forall_mem_append.mp unasked
    obtain ⟨tags, this, bearing⟩ := content_of_written checked c one here
    obtain ⟨tags', that, bearing'⟩ := contents_of_written checked rest more there
    exact ⟨tags ++ tags', this.append that, bearing.append bearing'⟩

end

end Document

section Grown

variable {schema : Schema} {limits : Limits} {mode : RawMode} {complete : Prop}

theorem ElementType.Admits.unrequested {t : ElementType} {content : List ContentRule}
    (h : t.Admits limits mode complete content) :
    ∀ c ∈ content, c.isElement = true ∨ ∀ r ∈ c.valueRules, r.requested = none := by
  unfold Admits at h
  split at h
  · simp [h]
  · obtain ⟨id, rfl⟩ := h
    exact List.forall_mem_singleton.mpr (.inr (List.forall_mem_singleton.mpr rfl))
  · exact fun c member => .inl (h.1 c member)
  · split at h
    · obtain ⟨id, rfl⟩ := h
      exact List.forall_mem_singleton.mpr (.inr (List.forall_mem_singleton.mpr rfl))
    · intro c member
      rcases h.1.kinds c member with child | ⟨id, rfl⟩
      · exact .inl child
      · exact .inr (List.forall_mem_singleton.mpr rfl)

namespace ContentRule

mutual

theorem unrequested_of_conform : (c : ContentRule) →
    (c.isElement = true ∨ ∀ r ∈ c.valueRules, r.requested = none) →
    (∀ e ∈ c.elements, e.Conforms schema limits mode complete) →
    ∀ r ∈ c.valueRules, r.mode = some .full → r.requested = none
  | .element _ _ attributes content, _, conform => by
    obtain ⟨⟨_, _, _, _, _, admits⟩, below⟩ := List.forall_mem_cons.mp conform
    refine List.forall_mem_append.mpr ⟨fun r member full => ?_, ?_⟩
    · obtain ⟨a, -, rfl⟩ := List.mem_map.mp member
      cases full
    · exact unrequestedAll_of_conform content admits.unrequested below
  | .data _, kind, _ => fun r member _ => kind.resolve_left nofun r member
  | .raw _ _, kind, _ => fun r member _ => kind.resolve_left nofun r member

theorem unrequestedAll_of_conform : (content : List ContentRule) →
    (∀ c ∈ content, c.isElement = true ∨ ∀ r ∈ c.valueRules, r.requested = none) →
    (∀ e ∈ elementsOf content, e.Conforms schema limits mode complete) →
    ∀ r ∈ valueRulesOf content, r.mode = some .full → r.requested = none
  | [], _, _ => nofun
  | c :: rest, kinds, conform => by
    obtain ⟨kind, kinds⟩ := List.forall_mem_cons.mp kinds
    obtain ⟨first, others⟩ := List.forall_mem_append.mp conform
    exact List.forall_mem_append.mpr ⟨unrequested_of_conform c kind first,
      unrequestedAll_of_conform rest kinds others⟩

end

end ContentRule

theorem ElementRule.Conforms.nodup_attributeNames (sound : schema.Sound) {e : ElementRule}
    (conforms : e.Conforms schema limits mode complete)
    (distinct : ∀ t ∈ schema.elementTypes, (t.attributes.map AttributeDecl.name).Nodup) :
    (e.attributeNames schema).Nodup := by
  obtain ⟨r, t, -, leads, bears, -⟩ := conforms
  have member := (Schema.mem_of_elementType leads).1
  have names : (t.attributes.map AttributeDecl.id).map schema.attributeName =
      t.attributes.map AttributeDecl.name := by
    rw [List.map_map]
    exact List.map_congr_left fun a inside =>
      Schema.attributeName_eq (sound.attributeDecl_of_mem member inside)
  have fewer := bears.ordered.map schema.attributeName
  rw [names, List.map_map] at fewer
  exact (distinct t member).sublist fewer

end Grown

namespace Document

variable {schema : Schema} {generation : GenerationSettings} {mode : RawMode}
  {choice : Plan.RootChoice} {source rest : Random.Source} {marker : Marker}
  {settings : ValueSettings} {limits : Limits} {plan : Plan} {doc : Document}

theorem element_of_render (checked : schema.check = .ok ())
    (unasked : Unasked schema plan.root.valueRules)
    (rendered : render schema marker settings limits plan = .ok doc) :
    ∃ body tags, doc.xml.toList = declaration ++ body ∧ IsElement tags body ∧
      Bearing schema tags plan.elements := by
  obtain ⟨-, root, functions, parameters, written, -, rfl⟩ := render_eq_ok.mp rendered
  have below := (List.forall_mem_append.mp unasked).2
  have checked' : (contextOf schema marker settings plan).schema.check = .ok () := checked
  obtain ⟨tags, element, bearing⟩ := element_of_written checked' written.tree fun inner inside =>
    contents_of_written checked' plan.root.content inside below
  exact ⟨root.text, tags, String.toList_ofList, element, bearing⟩

/-- Behind the declaration, the document of a grown plan is one element. Its tags nest, its texts and
values are escaped, and its tags with attributes are those of the element rules. So it is well formed
exactly when no element rule gives one name to two attributes, and always so when no type of the schema
does. -/
theorem render_well_formed (checked : schema.check = .ok ())
    (made : Plan.generate schema generation mode choice source = .ok (plan, rest))
    (rendered : render schema marker settings limits plan = .ok doc) :
    ∃ body tags, doc.xml.toList = declaration ++ body ∧ IsElement tags body ∧
      Bearing schema tags plan.elements ∧
      (WellFormed body ↔ ∀ e ∈ plan.elements, (e.attributeNames schema).Nodup) ∧
      ((∀ t ∈ schema.elementTypes, (t.attributes.map AttributeDecl.name).Nodup) →
        WellFormed body) := by
  have sound := Schema.sound_of_check checked
  obtain ⟨growth, -, grown⟩ := Plan.generate_grown sound made
  have constrained := ContentRule.constrained_of_fits plan.root.toContent (grown.fits sound).root
  have unrequested := plan.root.toContent.unrequested_of_conform (.inl rfl) grown.conform
  have unasked : Unasked schema plan.root.valueRules := fun r member full =>
    ⟨unrequested r member full, constrained r member⟩
  obtain ⟨body, tags, text, element, bearing⟩ := element_of_render checked unasked rendered
  have formed : WellFormed body ↔ ∀ e ∈ plan.elements, (e.attributeNames schema).Nodup := by
    rw [Markup.wellFormed_iff element, bearing.nodup_iff]
  refine ⟨body, tags, text, element, bearing, formed, fun distinct => ?_⟩
  rw [formed]
  exact fun e member => (grown.conform e member).nodup_attributeNames sound distinct

open Plan (generate)

def countedType : ElementType :=
  (ElementType.empty (trialObject 1) "item").withAttribute
    (.mandatory (trialObject 2) "n" (.withRange (.ofType .integer) (some 5) (some 5)))

def countedSchema : Schema :=
  ⟨"item.xsl", 1, [countedType], [countedType.reference (trialObject 3) "item"], [], []⟩

theorem render_well_formed_counted : countedSchema.check = .ok () ∧ ∃ plan rest doc body,
    generate countedSchema .standard .full .uniform ⟨fun _ => 0, 0⟩ = .ok (plan, rest) ∧
    render countedSchema trialMarker .standard .standard plan = .ok doc ∧
    doc.xml.toList = declaration ++ body ∧ WellFormed body := by
  have checked : countedSchema.check = .ok () := rfl
  have distinct : ∀ t ∈ countedSchema.elementTypes, (t.attributes.map AttributeDecl.name).Nodup := by
    decide
  obtain ⟨doc, done⟩ := Outcome.exists_of_isOk (x := do
    let grown ← generate countedSchema .standard .full .uniform ⟨fun _ => 0, 0⟩
    render countedSchema trialMarker .standard .standard grown.1) (by decide +kernel)
  obtain ⟨⟨plan, rest⟩, made, rendered⟩ := Outcome.bind_eq_ok.mp done
  obtain ⟨body, tags, text, -, -, -, formed⟩ := render_well_formed checked made rendered
  exact ⟨checked, plan, rest, doc, body, made, rendered, text, formed distinct⟩

section Twins

def twinAttribute (n : Nat) : AttributeDecl :=
  .mandatory (trialObject n) "a" (.withFixedValues .anyText ["x"])

def twinType : ElementType :=
  ((ElementType.empty (trialObject 1) "item").withAttribute (twinAttribute 2)).withAttribute
    (twinAttribute 4)

def twinSchema : Schema :=
  ⟨"item.xsl", 1, [twinType], [twinType.reference (trialObject 3) "item"], [], []⟩

theorem twinSchema_check : twinSchema.check = .ok () := rfl

variable {ctx : Context}

theorem writeAttribute_twin (schema : ctx.schema = twinSchema) {r : ScalarRule} {p : Piece}
    (written : writeAttribute ctx r = .ok p) : p.text = " a=\"x\"".toList := by
  obtain ⟨attr, d, known, made, rfl⟩ := (writeAttribute_eq_ok ctx).mp written
  obtain ⟨object, c, found, constraint, described⟩ := describe_eq_ok.mp made
  obtain ⟨owner, held⟩ := Schema.attributeDecl_eq_ok.mp known
  cases held.symm.trans found
  cases constraint
  obtain ⟨n, rfl⟩ : ∃ n, attr = twinAttribute n := by
    rw [schema] at held
    obtain ⟨type, inside⟩ := Schema.mem_of_attributeDecl held
    rw [List.mem_singleton.mp type] at inside
    rcases List.mem_pair.mp inside with rfl | rfl
    · exact ⟨2, rfl⟩
    · exact ⟨4, rfl⟩
  have drawn : Ensures (Synthesis.valueFrom ctx.marker ctx.settings (twinAttribute n).constraint
      r.toValueRule) (Synthesis.Satisfies (twinAttribute n).constraint r.toValueRule) :=
    Synthesis.valueFrom_satisfies (.inl rfl)
  -- A value is accepted, so what is drawn is accepted too, and no other value is.
  have possible : DataConstraint.accepts (.withFixedValues .anyText ["x"]) "x" = true := by decide
  have accepted := (drawn.of_eq_ok (Synthesis.describeUnder_value described)).accepted ⟨"x", possible⟩
  have value := List.mem_singleton.mp (((DataConstraint.accepts_text_iff (.inl rfl)).mp accepted).2 rfl)
  rw [attributePiece, value]
  change ' ' :: "a".toList ++ '=' :: '"' :: Markup.escape "x".toList ++ ['"'] = _
  decide

theorem twinSchema_decided (settings : GenerationSettings) : ¬ settings.Undecided twinSchema := by
  rintro (⟨-, t, member, a, declared, optional⟩ | ⟨-, t, member, mixed, -⟩)
  · rw [List.mem_singleton.mp member] at declared
    rcases List.mem_pair.mp declared with rfl | rfl <;> exact nomatch optional
  · rw [List.mem_singleton.mp member] at mixed
    exact nomatch mixed

theorem rules_of_twins {rules : List ScalarRule} (bears : Bears twinType.attributes rules) :
    ∃ r s, rules = [r, s] := by
  have first : trialObject 2 ∈ rules.map ScalarRule.target :=
    bears.mandatory (twinAttribute 2) (.head _) rfl
  have second : trialObject 4 ∈ rules.map ScalarRule.target :=
    bears.mandatory (twinAttribute 4) (.tail _ (.head _)) rfl
  have most : (rules.map ScalarRule.target).length ≤ 2 := bears.ordered.length_le
  match rules, most with
  | [], _ => cases first
  | [r], _ =>
    have same := (List.mem_singleton.mp first).trans (List.mem_singleton.mp second).symm
    exact absurd same (by decide)
  | [r, s], _ => exact ⟨r, s, rfl⟩

theorem text_of_twins (schema : ctx.schema = twinSchema) {e : ElementRule} {limits : Limits}
    {mode : RawMode} {complete : Prop} {p : Piece}
    (conforms : e.Conforms twinSchema limits mode complete)
    (written : writeContent ctx e.toContent = .ok p) : p.text = "<item a=\"x\" a=\"x\"/>".toList := by
  obtain ⟨declared, ws, inner, found, tag, -, rfl⟩ := (writeContent_element_eq_ok ctx).mp written
  obtain ⟨r, t, known, leads, bears, admits⟩ := conforms
  obtain rfl : t = twinType := List.mem_singleton.mp (Schema.mem_of_elementType leads).1
  have empty : e.content = [] := admits
  obtain ⟨a, b, rules⟩ := rules_of_twins bears
  rw [schema] at found
  have item := List.mem_singleton.mp (Schema.mem_of_elementReference found)
  rw [rules] at tag
  obtain ⟨first, rest, one, more, rfl⟩ := (writeAttributes_cons_eq_ok ctx).mp tag
  obtain ⟨second, none, two, nothing, rfl⟩ := (writeAttributes_cons_eq_ok ctx).mp more
  cases nothing
  have front := writeAttribute_twin schema one
  have back := writeAttribute_twin schema two
  rw [empty, item]
  simp [elementPiece, front, back, ElementType.reference, ElementReference.exactlyOnce]

theorem render_twins (source : Random.Source) : ∃ plan rest doc,
    generate twinSchema .standard .full .uniform source = .ok (plan, rest) ∧
    render twinSchema trialMarker .standard .standard plan = .ok doc ∧
    doc.xml = String.ofList (declaration ++ "<item a=\"x\" a=\"x\"/>".toList) := by
  have sound := Schema.sound_of_check twinSchema_check
  obtain ⟨plan, rest, made⟩ :=
    Plan.exists_generate_of_decided (twinSchema_decided .standard) .full sound nofun source
  obtain ⟨growth, -, grown⟩ := Plan.generate_grown sound made
  have fits := grown.fits sound
  have belongs : checkPlan twinSchema plan = .ok () := if_pos ⟨fits.stylesheet, fits.version⟩
  have number : ValueSettings.standard.freshValueProbability.isNaN = false := by decide
  have able : Synthesis.suffixLength trialMarker .standard ≤ Breakdown.mostBytes := by decide
  obtain ⟨root, fs, ps, written, -⟩ : Renders twinSchema trialMarker .standard plan :=
    (renders_of_fits fits trialMarker .standard).resolve_right fun ⟨_, broken, _⟩ =>
      broken.false_of_room number able
  have text := text_of_twins rfl (grown.conform plan.root List.mem_cons_self) written.tree
  refine ⟨plan, rest, assemble root fs ps, made, ?_, by rw [assemble, text]⟩
  have size : (assemble root fs ps).xml.utf8ByteSize ≤ Limits.standard.maxDocumentSize.toNat := by
    change (String.ofList (declaration ++ root.text)).utf8ByteSize ≤ _
    rw [text]
    decide
  rw [render_of_written belongs written, if_pos size]

theorem render_not_always_well_formed : twinSchema.check = .ok () ∧ ∃ plan rest doc,
    generate twinSchema .standard .full .uniform (.ofSeed 1) = .ok (plan, rest) ∧
    render twinSchema trialMarker .standard .standard plan = .ok doc ∧
    doc.xml.toList = declaration ++ "<item a=\"x\" a=\"x\"/>".toList ∧
    ¬ WellFormed "<item a=\"x\" a=\"x\"/>".toList := by
  obtain ⟨plan, rest, doc, made, rendered, text⟩ := render_twins (.ofSeed 1)
  refine ⟨twinSchema_check, plan, rest, doc, made, rendered, by simp [text], ?_⟩
  have plain : Markup.escape ['x'] = ['x'] := by decide
  have proper := @Markup.proper_escape ['a'] (by decide) ['x']
  rw [plain] at proper
  have element := @IsElement.alone "item".toList [⟨['a'], ['x']⟩, ⟨['a'], ['x']⟩] (by decide)
    (by simpa using proper)
  intro formed
  have distinct := (Markup.wellFormed_iff element).mp formed
  exact absurd distinct (by decide)

end Twins
end Document

end TaintScan
