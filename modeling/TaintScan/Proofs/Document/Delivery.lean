import TaintScan.Proofs.Document.Totality
import TaintScan.Proofs.OrderedMap

namespace TaintScan

open Synthesis (Context describe)

namespace Plan

variable {p q : Plan}

theorem Modifies.targets (h : Modifies p q) :
    q.functions.map ScalarRule.target = p.functions.map ScalarRule.target ∧
      q.parameters.map ScalarRule.target = p.parameters.map ScalarRule.target := by
  rcases h with ⟨id, object, value, edited⟩
  rcases modify_eq_ok edited with ⟨-, pinned, done, rfl⟩
  rcases pin?_cases done with ⟨-, functions, parameters⟩ | ⟨-, -, found, parameters⟩ |
    ⟨-, -, -, functions, found⟩
  · exact ⟨congrArg _ functions, congrArg _ parameters⟩
  · exact ⟨ScalarRule.targets_of_pinFirst? found, congrArg _ parameters⟩
  · exact ⟨congrArg _ functions, ScalarRule.targets_of_pinFirst? found⟩

theorem targets_of_modifications (modified : Relation.ReflTransGen Modifies p q) :
    q.functions.map ScalarRule.target = p.functions.map ScalarRule.target ∧
      q.parameters.map ScalarRule.target = p.parameters.map ScalarRule.target := by
  induction modified with
  | refl => exact ⟨rfl, rfl⟩
  | tail _ step kept => exact ⟨step.targets.1.trans kept.1, step.targets.2.trans kept.2⟩

end Plan

namespace Document

section Names

variable {named : OrderedMap QualifiedName String} {bound : List (QualifiedName × Descriptor)}

def Delivers (named : OrderedMap QualifiedName String) (bound : List (QualifiedName × Descriptor)) :
    Prop := ∀ b ∈ bound, named.get? b.1 = some b.2.value

def Collects (named : OrderedMap QualifiedName String) (bound : List (QualifiedName × Descriptor)) :
    Prop :=
  ∀ front name d back, bound = front ++ (name, d) :: back → name ∉ back.map Prod.fst →
    named.get? name = some d.value

theorem collects_ofEntries (bound : List (QualifiedName × Descriptor)) :
    Collects (.ofEntries (bound.map (Prod.map id Descriptor.value))) bound := by
  intro front name d back split unnamed
  rw [split, List.map_append, List.map_cons]
  apply OrderedMap.get?_ofEntries_last
  rw [List.map_map]
  exact unnamed

theorem exists_last_of_mem {b : QualifiedName × Descriptor} (member : b ∈ bound) :
    ∃ front d back, bound = front ++ (b.1, d) :: back ∧ b.1 ∉ back.map Prod.fst := by
  induction bound generalizing b with
  | nil => cases member
  | cons first rest ih =>
    by_cases again : b.1 ∈ rest.map Prod.fst
    · rcases List.mem_map.mp again with ⟨c, inside, same⟩
      rcases ih inside with ⟨front, d, back, split, last⟩
      rw [same] at split last
      exact ⟨first :: front, d, back, by rw [split]; rfl, last⟩
    · rcases List.mem_cons.mp member with rfl | inside
      · exact ⟨[], b.2, rest, rfl, again⟩
      · exact absurd (List.mem_map_of_mem inside) again

theorem Collects.delivers_iff (h : Collects named bound) :
    Delivers named bound ↔ ∀ a ∈ bound, ∀ b ∈ bound, a.1 = b.1 → a.2.value = b.2.value := by
  constructor
  · intro delivers a one b two same
    have first := delivers a one
    rw [same, delivers b two] at first
    exact (Option.some.inj first).symm
  · intro agree b member
    rcases exists_last_of_mem member with ⟨front, d, back, split, last⟩
    have listed : (b.1, d) ∈ bound := split ▸ List.mem_append_right front List.mem_cons_self
    rw [h front b.1 d back split last, agree _ listed b member rfl]

theorem Collects.delivers_of_nodup (h : Collects named bound)
    (distinct : (bound.map Prod.fst).Nodup) : Delivers named bound := by
  apply h.delivers_iff.mpr
  intro a one b two same
  rw [List.inj_on_of_nodup_map distinct one two same]

end Names

/-- Records are those of rules in order, and each is bound to the name beside it. -/
structure Delivery (names : List QualifiedName) (rules : List ScalarRule)
    (records : List Descriptor) (named : OrderedMap QualifiedName String) : Prop where
  origin : records.map (fun d => (d.rule, d.object)) = rules.map fun r => (r.id, r.target)
  last : Collects named (names.zip records)
  complete : Delivers named (names.zip records) ↔
    ∀ a ∈ names.zip records, ∀ b ∈ names.zip records, a.1 = b.1 → a.2.value = b.2.value
  distinct : names.Nodup → Delivers named (names.zip records)

theorem records_of_described {ctx : Context} {rules : List ScalarRule} {records : List Descriptor}
    (described : Described ctx (rules.map ScalarRule.toValueRule) records) :
    records.map (fun d => (d.rule, d.object)) = rules.map fun r => (r.id, r.target) := by
  induction rules generalizing records with
  | nil =>
    cases described
    rfl
  | cons r rest ih =>
    cases described with
    | cons made others =>
      rcases Synthesis.describe_provenance made with ⟨rule, object⟩
      rw [List.map_cons, List.map_cons, ih others, rule, object]
      rfl

theorem delivery_of_bindAll {ctx : Context} {nameOf : ObjectId → Except Error QualifiedName}
    {rules : List ScalarRule} {names : List QualifiedName} {b : Bindings}
    (bound : bindAll ctx nameOf unbound rules = .ok b)
    (known : Named nameOf (rules.map ScalarRule.target) names) :
    Delivery names rules b.values b.named := by
  rcases bindAll_unbound_eq_ok.mp bound with ⟨others, ds, again, described, rfl⟩
  obtain rfl := known.unique again
  have collects : Collects (.ofEntries (names.zip (ds.map Descriptor.value))) (names.zip ds) := by
    rw [List.zip_map_right]
    exact collects_ofEntries _
  refine ⟨records_of_described described, collects, collects.delivers_iff, fun distinct => ?_⟩
  have size : names.length ≤ ds.length := by
    rw [← known.length_eq, ← described.length_eq, List.length_map, List.length_map]
  apply collects.delivers_of_nodup
  rw [List.map_fst_zip size]
  exact distinct

/-- The functions and the parameters of a schema are handed to the transform with a document. -/
structure HandsOver (schema : Schema) (plan : Plan) (doc : Document) (functions : List Descriptor)
    (parameters : List Descriptor) : Prop where
  ledger : ∃ tree, doc.ledger.toList = tree ++ functions ++ parameters
  functionTargets : plan.functions.map ScalarRule.target = schema.functions.map FunctionDecl.id
  parameterTargets : plan.parameters.map ScalarRule.target = schema.parameters.map ParameterDecl.id
  functions : Delivery (schema.functions.map FunctionDecl.name) plan.functions functions
    doc.functionResults
  parameters : Delivery (schema.parameters.map ParameterDecl.name) plan.parameters parameters
    doc.parameters

section Rendering

variable {schema : Schema} {generation : GenerationSettings} {mode : RawMode}
  {choice : Plan.RootChoice} {source rest : Random.Source} {plan last : Plan} {marker : Marker}
  {settings : ValueSettings} {limits : Limits} {doc : Document}

theorem named_of_forall {α : Type} {nameOf : ObjectId → Except Error QualifiedName}
    {decls : List α} {idOf : α → ObjectId} {nameIn : α → QualifiedName}
    (known : ∀ a ∈ decls, nameOf (idOf a) = .ok (nameIn a)) :
    Named nameOf (decls.map idOf) (decls.map nameIn) := by
  simp only [Named, Outcome.Each, List.forall₂_map_left_iff, List.forall₂_map_right_iff,
    List.forall₂_same]
  exact known

theorem named_functions (sound : schema.Sound) : Named (functionName schema)
    (schema.functions.map FunctionDecl.id) (schema.functions.map FunctionDecl.name) := by
  apply named_of_forall
  intro f member
  exact Outcome.fmap_eq_ok.mpr ⟨f, sound.function_of_mem member, rfl⟩

theorem named_parameters (sound : schema.Sound) : Named (parameterName schema)
    (schema.parameters.map ParameterDecl.id) (schema.parameters.map ParameterDecl.name) := by
  apply named_of_forall
  intro p member
  exact Outcome.fmap_eq_ok.mpr ⟨p, sound.parameter_of_mem member, rfl⟩

/-- The ledger of a generated plan, with any values asked for in it, ends with the records of its
function rules and of its parameter rules. Under each name the value of its last record is
delivered. So every record is delivered when the names are distinct, and in general exactly when
records of one name have one value. -/
theorem render_delivers (checked : schema.check = .ok ())
    (made : Plan.generate schema generation mode choice source = .ok (plan, rest))
    (modified : Relation.ReflTransGen Plan.Modifies plan last)
    (rendered : render schema marker settings limits last = .ok doc) :
    ∃ functions parameters, HandsOver schema last doc functions parameters := by
  have sound := Schema.sound_of_check checked
  rcases Plan.generate_grown sound made with ⟨growth, -, grown⟩
  have kept := Plan.targets_of_modifications modified
  have functions := kept.1.trans grown.functions
  have parameters := kept.2.trans grown.parameters
  rcases render_eq_ok.mp rendered with ⟨-, root, fs, ps, written, -, rfl⟩
  refine ⟨fs.values, ps.values, ⟨root.values, ?_⟩, functions, parameters, ?_, ?_⟩
  · exact Ledger.toList_ofList _
  · apply delivery_of_bindAll written.functions
    rw [functions]
    exact named_functions sound
  · apply delivery_of_bindAll written.parameters
    rw [parameters]
    exact named_parameters sound

end Rendering

section Trial

open Plan (generate)

def bareType : ElementType := .empty (trialObject 1) "item"

def overloadSchema : Schema where
  stylesheet := "item.xsl"
  version := 1
  elementTypes := [bareType]
  rootElements := [bareType.reference (trialObject 3) "item"]
  functions := [⟨trialObject 5, ⟨none, "f"⟩, [], .one .string⟩,
    ⟨trialObject 6, ⟨none, "f"⟩, [.one .string], .one .string⟩]
  parameters := []

def countingSource : Random.Source := ⟨UInt32.ofNat, 0⟩

def firstRule : RuleId := ⟨⟨0x131415161718491a9b1c1d1e1f202122⟩⟩

def secondRule : RuleId := ⟨⟨0x232425262728492aab2c2d2e2f303132⟩⟩

/-- What is generated from the source, with requests for the results of both functions. -/
def overloadPlan (first second : Option String) : Plan where
  stylesheet := "item.xsl"
  version := 1
  valueSeed := 4294967296
  root := ⟨⟨⟨0x030405060708490a8b0c0d0e0f101112⟩⟩, trialObject 3, [], []⟩
  functions := [⟨firstRule, trialObject 5, first⟩, ⟨secondRule, trialObject 6, second⟩]
  parameters := []
  requestedValues := .ofEntries ((first.map (trialObject 5, ·)).toList ++
    (second.map (trialObject 6, ·)).toList)

theorem generate_overloads : ∃ rest,
    generate overloadSchema .standard .full .uniform countingSource =
      .ok (overloadPlan none none, rest) := by
  rcases Outcome.exists_of_any
    (x := generate overloadSchema .standard .full .uniform countingSource)
    (p := fun result => decide (result.1 = overloadPlan none none)) (by decide +kernel) with
    ⟨result, made, same⟩
  exact ⟨result.2, by rw [made, ← of_decide_eq_true same]⟩

theorem overloads_modified : Relation.ReflTransGen Plan.Modifies (overloadPlan none none)
    (overloadPlan (some "one") (some "two")) := by
  have first : Plan.Modifies (overloadPlan none none) (overloadPlan (some "one") none) :=
    ⟨firstRule, trialObject 5, "one", rfl⟩
  have second : Plan.Modifies (overloadPlan (some "one") none)
      (overloadPlan (some "one") (some "two")) := ⟨secondRule, trialObject 6, "two", rfl⟩
  exact .tail (.single first) second

theorem render_overloads : ∃ doc, render overloadSchema trialMarker .standard .standard
      (overloadPlan (some "one") (some "two")) = .ok doc ∧
    doc.functionResults.get? ⟨none, "f"⟩ = some "two" ∧
    ⟨trialObject 5, firstRule, "one", true, none⟩ ∈ doc.ledger.toList := by
  rcases Outcome.exists_of_any
    (x := render overloadSchema trialMarker .standard .standard
      (overloadPlan (some "one") (some "two")))
    (p := fun doc => decide (doc.functionResults.get? ⟨none, "f"⟩ = some "two" ∧
      ⟨trialObject 5, firstRule, "one", true, none⟩ ∈ doc.ledger.toList)) (by decide +kernel) with
    ⟨doc, rendered, known⟩
  exact ⟨doc, rendered, of_decide_eq_true known⟩

theorem render_delivers_overloads : overloadSchema.check = .ok () ∧ ∃ rest doc,
    generate overloadSchema .standard .full .uniform countingSource =
      .ok (overloadPlan none none, rest) ∧
    Relation.ReflTransGen Plan.Modifies (overloadPlan none none)
      (overloadPlan (some "one") (some "two")) ∧
    render overloadSchema trialMarker .standard .standard
      (overloadPlan (some "one") (some "two")) = .ok doc ∧
    ∃ functions parameters, HandsOver overloadSchema (overloadPlan (some "one") (some "two")) doc
      functions parameters := by
  have checked : overloadSchema.check = .ok () := rfl
  rcases generate_overloads with ⟨rest, made⟩
  rcases render_overloads with ⟨doc, rendered, -⟩
  exact ⟨checked, rest, doc, made, overloads_modified, rendered,
    render_delivers checked made overloads_modified rendered⟩

theorem render_not_always_delivers :
    ¬ ∀ (schema : Schema) (generation : GenerationSettings) (mode : RawMode)
      (choice : Plan.RootChoice) (source rest : Random.Source) (plan last : Plan) (marker : Marker)
      (settings : ValueSettings) (limits : Limits) (doc : Document),
      schema.check = .ok () →
      generate schema generation mode choice source = .ok (plan, rest) →
      Relation.ReflTransGen Plan.Modifies plan last →
      render schema marker settings limits last = .ok doc →
      (∀ r ∈ last.functions, ∀ f, schema.function r.target = .ok f →
        ∀ d ∈ doc.ledger.toList, d.rule = r.id → d.object = r.target →
          doc.functionResults.get? f.name = some d.value) ∧
      ∀ r ∈ last.parameters, ∀ p, schema.parameter r.target = .ok p →
        ∀ d ∈ doc.ledger.toList, d.rule = r.id → d.object = r.target →
          doc.parameters.get? p.name = some d.value := by
  intro claimed
  rcases generate_overloads with ⟨rest, made⟩
  rcases render_overloads with ⟨doc, rendered, kept, recorded⟩
  have delivered := (claimed _ _ _ _ _ _ _ _ _ _ _ _ rfl made overloads_modified rendered).1
    ⟨firstRule, trialObject 5, some "one"⟩ List.mem_cons_self _ rfl _ recorded rfl rfl
  exact absurd (kept.symm.trans delivered) (by decide)

end Trial

end Document

end TaintScan
