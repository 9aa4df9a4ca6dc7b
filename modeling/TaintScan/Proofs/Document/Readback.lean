import TaintScan.Proofs.Document.SingleDifference
import TaintScan.Proofs.Markup.Mark
import TaintScan.Proofs.Schema.Lookup

namespace TaintScan

namespace Schema

variable (s : Schema)

/-- The name of the element that a reference stands for. -/
def elementName (id : ObjectId) : String :=
  match s.elementReference id with
  | .ok reference => reference.name
  | .error _ => ""

def attributeName (id : ObjectId) : String :=
  match s.attributeDecl id with
  | .ok attr => attr.name
  | .error _ => ""

variable {s}

theorem elementName_eq {id : ObjectId} {r : ElementReference} (known : s.elementReference id = .ok r) :
    s.elementName id = r.name := by
  rw [elementName, known]

theorem attributeName_eq {id : ObjectId} {a : AttributeDecl} (known : s.attributeDecl id = .ok a) :
    s.attributeName id = a.name := by
  rw [attributeName, known]

end Schema

def ScalarRule.attributesWith (s : Schema) : List ScalarRule → List String → List (String × String)
  | [], _ => []
  | r :: rest, values => (s.attributeName r.target, values.headD "") :: attributesWith s rest values.tail

def ScalarRule.unpin (r : ScalarRule) : ScalarRule := { r with requested := none }

namespace ContentRule

mutual

/-- The marks of a content rule whose value rules are given values in order. -/
def marks (s : Schema) : ContentRule → List String → List Mark
  | element _ reference attributes content, values =>
    if content.isEmpty then
      [.alone (s.elementName reference) (ScalarRule.attributesWith s attributes values)]
    else
      .opening (s.elementName reference) (ScalarRule.attributesWith s attributes values) ::
        marksOf s content (values.drop attributes.length) ++ [.closing (s.elementName reference)]
  | data _, values => [.text (values.headD "")]
  | raw _ _, values => [.text (values.headD "")]

def marksOf (s : Schema) : List ContentRule → List String → List Mark
  | [], _ => []
  | c :: rest, values => marks s c values ++ marksOf s rest (values.drop c.valueRules.length)

end

mutual

def unpin : ContentRule → ContentRule
  | element id reference attributes content =>
    element id reference (attributes.map ScalarRule.unpin) (unpinAll content)
  | data r => data r.unpin
  | raw r mode => raw r.unpin mode

def unpinAll : List ContentRule → List ContentRule
  | [] => []
  | c :: rest => unpin c :: unpinAll rest

end

end ContentRule

namespace Document

variable {ctx : Synthesis.Context} {lenient : Bool}

open Mark (Shows runs)

theorem writeAttributes_text {rules : List ScalarRule} {p : Piece}
    (written : writeAttributes ctx rules = .ok p) (more : List String) :
    p.text = Mark.writtenAttributes
      (ScalarRule.attributesWith ctx.schema rules (p.values.map Descriptor.value ++ more)) := by
  induction rules generalizing p with
  | nil =>
    cases written
    rfl
  | cons r rest ih =>
    obtain ⟨first, others, one, behind, rfl⟩ := (writeAttributes_cons_eq_ok ctx).mp written
    obtain ⟨attr, d, known, -, rfl⟩ := (writeAttribute_eq_ok ctx).mp one
    rw [Piece.append_text, ih behind]
    simp [ScalarRule.attributesWith, Schema.attributeName_eq known, attributePiece,
      Mark.writtenAttributes, Mark.rawOf, Markup.RawAttribute.written]

theorem drop_described {rules : List ValueRule} {ds : List Descriptor}
    (described : Described ctx rules ds) (more : List String) :
    (ds.map Descriptor.value ++ more).drop rules.length = more := by
  have length : rules.length = (ds.map Descriptor.value).length := by
    rw [List.length_map, described.length_eq]
  rw [length, List.drop_left]

theorem solid_attributes (sound : ctx.schema.check = .ok ()) {rules : List ScalarRule} {p : Piece}
    (written : writeAttributes ctx rules = .ok p) (values : List String) :
    ∀ a ∈ ScalarRule.attributesWith ctx.schema rules values, Name.Solid a.1.toList := by
  induction rules generalizing p values with
  | nil => exact nofun
  | cons r rest ih =>
    obtain ⟨first, others, one, behind, -⟩ := (writeAttributes_cons_eq_ok ctx).mp written
    obtain ⟨attr, d, known, -, -⟩ := (writeAttribute_eq_ok ctx).mp one
    have qualified := Schema.isQualified_of_attributeDecl sound known
    rw [ScalarRule.attributesWith, Schema.attributeName_eq known]
    exact List.forall_mem_cons.mpr ⟨Name.solid_of_isQualified qualified, ih behind values.tail⟩

/-- Raw content that may hold markup is nowhere among value rules. -/
def NoMarkup (rules : List ValueRule) : Prop := ∀ r ∈ rules, r.mode ≠ some .full

mutual

-- A text joins the text behind it. So the statement is about a rule with anything behind it that is
-- known to show marks, and texts are joined once, in the whole list.
theorem shows_content (sound : ctx.schema.check = .ok ()) : (c : ContentRule) → {p : Piece} →
    writeContent ctx c = .ok p → NoMarkup c.valueRules → (more : List String) →
    {rest : List Char} → {behind : List Mark} → Shows lenient rest (runs behind) →
    Shows lenient (p.text ++ rest)
      (runs (c.marks ctx.schema (p.values.map Descriptor.value ++ more) ++ behind))
  | .element _ reference attributes content, p, h, plain, more, rest, behind, shown => by
    obtain ⟨declared, written, inner, known, ws, inside, rfl⟩ :=
      (writeContent_element_eq_ok ctx).mp h
    have name := Schema.elementName_eq known
    have solid := Name.solid_of_isQualified (Schema.isQualified_of_elementReference sound known)
    have tags := writeAttributes_text ws (inner.values.map Descriptor.value ++ more)
    have keys := solid_attributes sound ws
      (written.values.map Descriptor.value ++ (inner.values.map Descriptor.value ++ more))
    have left := drop_described (writeAttributes_described ws)
      (inner.values.map Descriptor.value ++ more)
    rw [List.length_map] at left
    rw [elementPiece_values _ _ _ inside, List.map_append, List.append_assoc, ContentRule.marks, name,
      left]
    cases content with
    | nil =>
      have tag := shown.alone declared.name solid keys
      rw [← tags] at tag
      simpa [elementPiece, runs] using tag
    | cons c content =>
      have closing : Shows lenient ('<' :: '/' :: (declared.name.toList ++ '>' :: rest))
          (runs (.closing declared.name :: behind)) := shown.closing declared.name solid
      have within := shows_contents sound (c :: content) inside
        (List.forall_mem_append.mp plain).2 more closing
      have tag := within.opening declared.name solid keys
      rw [← tags] at tag
      simpa [elementPiece, runs] using tag
  | .data r, p, h, _, more, rest, behind, shown => by
    obtain ⟨d, -, rfl⟩ := (writeContent_data_eq_ok ctx).mp h
    exact shown.escape_append d.value
  | .raw r mode, p, h, plain, more, rest, behind, shown => by
    obtain ⟨d, -, rfl⟩ := (writeContent_raw_eq_ok ctx).mp h
    cases mode with
    | full => exact absurd rfl (plain (r.toRawRule .full) List.mem_cons_self)
    | restricted => exact shown.escape_append d.value

theorem shows_contents (sound : ctx.schema.check = .ok ()) : (content : List ContentRule) →
    {p : Piece} → writeAll ctx content = .ok p → NoMarkup (ContentRule.valueRulesOf content) →
    (more : List String) → {rest : List Char} → {behind : List Mark} →
    Shows lenient rest (runs behind) → Shows lenient (p.text ++ rest)
      (runs (ContentRule.marksOf ctx.schema content (p.values.map Descriptor.value ++ more) ++ behind))
  | [], p, h, _, more, rest, behind, shown => by
    cases h
    exact shown
  | c :: content, p, h, plain, more, rest, behind, shown => by
    obtain ⟨first, others, one, following, rfl⟩ := (writeAll_cons_eq_ok ctx).mp h
    obtain ⟨here, there⟩ := List.forall_mem_append.mp plain
    have left := drop_described (writeContent_described c one) (others.values.map Descriptor.value ++ more)
    rw [ContentRule.marksOf, Piece.append_text, Piece.append_values, List.map_append,
      List.append_assoc, List.append_assoc, List.append_assoc, left]
    exact shows_content sound c one here _ (shows_contents sound content following there more shown)

end

theorem bare_attributesWith (s : Schema) (rules : List ScalarRule) (values others : List String) :
    (ScalarRule.attributesWith s rules values).map (fun a => (a.1, "")) =
      (ScalarRule.attributesWith s (rules.map ScalarRule.unpin) others).map fun a => (a.1, "") := by
  induction rules generalizing values others with
  | nil => rfl
  | cons r rest ih =>
    simp only [ScalarRule.attributesWith, List.map_cons, ih values.tail others.tail]
    rfl

mutual

theorem skeleton_unpin (s : Schema) : (c : ContentRule) → (values others : List String) →
    Mark.skeleton (c.marks s values) = Mark.skeleton (c.unpin.marks s others)
  | .element id reference attributes content, values, others => by
    have bare := bare_attributesWith s attributes values others
    have inner := skeleton_unpinAll s content (values.drop attributes.length)
      (others.drop attributes.length)
    rw [ContentRule.unpin, ContentRule.marks, ContentRule.marks, List.length_map]
    cases content with
    | nil => exact congrArg (fun bare => [Mark.alone (s.elementName reference) bare]) bare
    | cons c content =>
      simp only [ContentRule.unpinAll, List.isEmpty_cons, Bool.false_eq_true, if_false] at inner ⊢
      rw [List.cons_append, List.cons_append, Mark.skeleton_opening, Mark.skeleton_opening,
        Mark.skeleton_append, Mark.skeleton_append, bare, inner]
  | .data _, _, _ => rfl
  | .raw _ _, _, _ => rfl

theorem skeleton_unpinAll (s : Schema) : (content : List ContentRule) →
    (values others : List String) → Mark.skeleton (ContentRule.marksOf s content values) =
      Mark.skeleton (ContentRule.marksOf s (ContentRule.unpinAll content) others)
  | [], _, _ => rfl
  | c :: rest, values, others => by
    rw [ContentRule.marksOf, ContentRule.unpinAll, ContentRule.marksOf, Mark.skeleton_append,
      Mark.skeleton_append, skeleton_unpin s c values others, skeleton_unpinAll s rest]

end

theorem next_declaration (rest : List Char) :
    Markup.next (declaration ++ rest) = .event .declaration rest := rfl

theorem read_declaration (rest : List Char) :
    Markup.read (declaration ++ rest) = Markup.readFrom 0 (declaration ++ rest) := rfl

/-- A document is read to its end, and behind its declaration it shows marks. -/
def ReadsAs (lenient : Bool) (xml : String) (marks : List Mark) : Prop :=
  ∃ events, Markup.read xml.toList = ⟨.declaration :: events, none⟩ ∧
    events.mapM (Mark.ofEvent lenient) = some marks

/-- The marks of a plan whose value rules are given the values of a ledger. -/
def planMarks (schema : Schema) (plan : Plan) (ledger : Ledger) : List Mark :=
  runs (plan.root.toContent.marks schema (ledger.toList.map Descriptor.value))

section Rendering

variable {schema : Schema} {marker : Marker} {settings : ValueSettings} {limits : Limits}
  {plan : Plan} {doc : Document}

theorem readsAs_of_render (sound : schema.check = .ok ()) (plain : NoMarkup plan.valueRules)
    (rendered : render schema marker settings limits plan = .ok doc) (lenient : Bool) :
    ReadsAs lenient doc.xml (planMarks schema plan doc.ledger) := by
  obtain ⟨-, root, functions, parameters, written, -, rfl⟩ := render_eq_ok.mp rendered
  have tree : NoMarkup plan.root.toContent.valueRules := fun r member =>
    plain r (List.mem_append_left _ (List.mem_append_left _ member))
  have values : (Ledger.ofList (root.values ++ functions.values ++ parameters.values)).toList.map
      Descriptor.value = root.values.map Descriptor.value ++
        (functions.values ++ parameters.values).map Descriptor.value := by
    rw [Ledger.toList_ofList, List.append_assoc, List.map_append]
  have shown : Shows lenient (root.text ++ []) (runs (plan.root.toContent.marks schema
      (root.values.map Descriptor.value ++
        (functions.values ++ parameters.values).map Descriptor.value) ++ [])) :=
    @shows_content (contextOf schema marker settings plan) lenient sound plan.root.toContent root
      written.tree tree _ [] [] .finished
  rw [List.append_nil, List.append_nil] at shown
  obtain ⟨events, marks, read⟩ := shown.read
  have whole : Markup.read (declaration ++ root.text) = ⟨.declaration :: events, none⟩ := by
    rw [read_declaration, Markup.readFrom_of_next (next_declaration _), read]
    rfl
  refine ⟨events, ?_, ?_⟩
  · rw [assemble, String.toList_ofList]
    exact whole
  · rw [planMarks, assemble, values]
    exact marks

theorem skeleton_planMarks {other : Plan} {ledger ledger' : Ledger}
    (alike : other.root.toContent.unpin = plan.root.toContent.unpin) :
    Mark.skeleton (planMarks schema other ledger') = Mark.skeleton (planMarks schema plan ledger) := by
  rw [planMarks, planMarks, Mark.skeleton_runs, Mark.skeleton_runs, skeleton_unpin schema _ _ [], alike,
    ← skeleton_unpin schema _ _ []]

/-- Whatever the values hold, a document is read back as its plan with the values of the ledger: the
same elements and attributes, and runs of text between the tags. Requested values leave the tags as
they are. -/
theorem render_reads_back (sound : schema.check = .ok ()) (plain : NoMarkup plan.valueRules)
    (rendered : render schema marker settings limits plan = .ok doc) (lenient : Bool) :
    ReadsAs lenient doc.xml (planMarks schema plan doc.ledger) ∧
      ∀ marker' settings' limits' plan' doc', NoMarkup plan'.valueRules →
        plan'.root.toContent.unpin = plan.root.toContent.unpin →
        render schema marker' settings' limits' plan' = .ok doc' →
          ∃ marks, ReadsAs lenient doc'.xml marks ∧
            Mark.skeleton marks = Mark.skeleton (planMarks schema plan doc.ledger) :=
  ⟨readsAs_of_render sound plain rendered lenient, fun _ _ _ _ _ plain' alike rendered' =>
    ⟨_, readsAs_of_render sound plain' rendered' lenient, skeleton_planMarks alike⟩⟩

def hostilePlan : Plan :=
  { trialPlan with
    root := ⟨trialRule 10, trialObject 3,
      [⟨trialRule 11, trialObject 2, some "\x27\"/><b>&amp;</item>"⟩],
      [.data (.fresh (trialRule 11) (trialObject 1))]⟩ }

theorem render_reads_back_hostile :
    ∃ doc doc', render trialSchema trialMarker .standard .standard hostilePlan = .ok doc ∧
      render trialSchema trialMarker .standard .standard trialPlan = .ok doc' ∧
      ReadsAs true doc.xml (planMarks trialSchema hostilePlan doc.ledger) ∧
      ∃ marks, ReadsAs true doc'.xml marks ∧
        Mark.skeleton marks = Mark.skeleton (planMarks trialSchema hostilePlan doc.ledger) := by
  obtain ⟨doc, one⟩ := Outcome.exists_of_isOk
    (x := render trialSchema trialMarker .standard .standard hostilePlan) (by decide +kernel)
  obtain ⟨doc', two⟩ := Outcome.exists_of_isOk
    (x := render trialSchema trialMarker .standard .standard trialPlan) (by decide +kernel)
  have plain : NoMarkup hostilePlan.valueRules := by
    unfold NoMarkup
    decide
  have plain' : NoMarkup trialPlan.valueRules := by
    unfold NoMarkup
    decide
  obtain ⟨reads, others⟩ := render_reads_back rfl plain one true
  exact ⟨doc, doc', one, two, reads, others _ _ _ _ _ plain' rfl two⟩

end Rendering

end Document

end TaintScan
