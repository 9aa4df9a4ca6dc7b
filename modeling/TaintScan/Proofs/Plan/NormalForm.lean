import Mathlib.Data.List.Forall2
import TaintScan.Plan.Basic
import TaintScan.Proofs.OrderedMap

namespace TaintScan

/-- The rules ask for the same value for the same object. -/
structure ScalarRule.SameButIds (r s : ScalarRule) : Prop where
  target : r.target = s.target
  requested : r.requested = s.requested

structure ValueRule.SameButIds (r s : ValueRule) : Prop where
  target : r.target = s.target
  requested : r.requested = s.requested
  mode : r.mode = s.mode

/-- Content rules of one kind and one shape, and the same rule by rule but for identities. -/
inductive ContentRule.SameButIds : ContentRule → ContentRule → Prop
  | element {i j : RuleId} {reference : ObjectId} {as bs : List ScalarRule}
    {cs ds : List ContentRule} (attributes : List.Forall₂ ScalarRule.SameButIds as bs)
    (content : List.Forall₂ SameButIds cs ds) :
    SameButIds (.element i reference as cs) (.element j reference bs ds)
  | data {r s : ScalarRule} (same : r.SameButIds s) : SameButIds (.data r) (.data s)
  | raw {r s : ScalarRule} {mode : RawMode} (same : r.SameButIds s) :
    SameButIds (.raw r mode) (.raw s mode)

namespace ScalarRule

variable {r s : ScalarRule} {rules others : List ScalarRule}

theorem normalize_sameButIds (r : ScalarRule) : r.normalize.SameButIds r := ⟨rfl, rfl⟩

theorem normalize_eq_iff : r.normalize = s.normalize ↔ r.SameButIds s := by
  constructor
  · intro equal
    have target : r.normalize.target = s.normalize.target := by rw [equal]
    have requested : r.normalize.requested = s.normalize.requested := by rw [equal]
    exact ⟨target, requested⟩
  · intro same
    rw [normalize, normalize, same.target, same.requested]

theorem map_normalize_eq_iff :
    rules.map normalize = others.map normalize ↔ List.Forall₂ SameButIds rules others := by
  have pointwise : rules.map normalize = others.map normalize ↔
      List.Forall₂ (fun r s => r = s) (rules.map normalize) (others.map normalize) := by
    rw [List.forall₂_eq_eq_eq]
  rw [pointwise, List.forall₂_map_left_iff, List.forall₂_map_right_iff]
  simp only [normalize_eq_iff]

theorem forall₂_normalize (rules : List ScalarRule) :
    List.Forall₂ SameButIds (rules.map normalize) rules := by
  rw [List.forall₂_map_left_iff, List.forall₂_same]
  exact fun r _ => r.normalize_sameButIds

theorem forall₂_toValueRule (same : List.Forall₂ SameButIds rules others) :
    List.Forall₂ ValueRule.SameButIds (rules.map toValueRule) (others.map toValueRule) := by
  rw [List.forall₂_map_left_iff, List.forall₂_map_right_iff]
  exact same.imp fun r s alike => ⟨alike.target, alike.requested, rfl⟩

theorem ids_normalize (rules : List ScalarRule) :
    (rules.map normalize).map id = (rules.map id).map fun _ => RuleId.nil := by
  rw [List.map_map, List.map_map]
  rfl

end ScalarRule

namespace ContentRule

mutual

theorem SameButIds.normalize_eq : {c d : ContentRule} → c.SameButIds d → c.normalize = d.normalize
  | _, _, .element attributes content => by
    rw [normalize, normalize, ScalarRule.map_normalize_eq_iff.mpr attributes,
      normalizeAll_eq content]
  | _, _, .data same => by rw [normalize, normalize, ScalarRule.normalize_eq_iff.mpr same]
  | _, _, .raw same => by rw [normalize, normalize, ScalarRule.normalize_eq_iff.mpr same]

theorem normalizeAll_eq : {cs ds : List ContentRule} → List.Forall₂ SameButIds cs ds →
    normalizeAll cs = normalizeAll ds
  | _, _, .nil => rfl
  | _, _, .cons first others => by
    rw [normalizeAll, normalizeAll, first.normalize_eq, normalizeAll_eq others]

end

mutual

-- Rules of different kinds have normal forms of different kinds, so three cases are left.
theorem sameButIds_of_normalize_eq : (c d : ContentRule) → c.normalize = d.normalize →
    c.SameButIds d
  | element i r as cs, element j s bs ds, equal => by
    simp only [normalize, element.injEq, true_and] at equal
    obtain ⟨rfl, attributes, content⟩ := equal
    exact .element (ScalarRule.map_normalize_eq_iff.mp attributes)
      (forall₂_of_normalizeAll_eq cs ds content)
  | data r, data s, equal => by
    simp only [normalize, data.injEq] at equal
    exact .data (ScalarRule.normalize_eq_iff.mp equal)
  | raw r m, raw s n, equal => by
    simp only [normalize, raw.injEq] at equal
    obtain ⟨rules, rfl⟩ := equal
    exact .raw (ScalarRule.normalize_eq_iff.mp rules)

theorem forall₂_of_normalizeAll_eq : (cs ds : List ContentRule) →
    normalizeAll cs = normalizeAll ds → List.Forall₂ SameButIds cs ds
  | [], [], _ => .nil
  | c :: cs, d :: ds, equal => by
    obtain ⟨first, others⟩ := List.cons.inj equal
    exact .cons (sameButIds_of_normalize_eq c d first) (forall₂_of_normalizeAll_eq cs ds others)

end

theorem normalize_eq_iff {c d : ContentRule} : c.normalize = d.normalize ↔ c.SameButIds d :=
  ⟨sameButIds_of_normalize_eq c d, SameButIds.normalize_eq⟩

mutual

theorem normalize_sameButIds : (c : ContentRule) → c.normalize.SameButIds c
  | element _ _ attributes content =>
    .element (ScalarRule.forall₂_normalize attributes) (forall₂_normalizeAll content)
  | data r => .data r.normalize_sameButIds
  | raw r _ => .raw r.normalize_sameButIds

theorem forall₂_normalizeAll : (content : List ContentRule) →
    List.Forall₂ SameButIds (normalizeAll content) content
  | [] => .nil
  | c :: rest => .cons (normalize_sameButIds c) (forall₂_normalizeAll rest)

end

mutual

theorem SameButIds.elementCount_eq : {c d : ContentRule} → c.SameButIds d →
    c.elementCount = d.elementCount
  | _, _, .element _ content => by rw [elementCount, elementCount, elementCountOf_eq content]
  | _, _, .data _ => rfl
  | _, _, .raw _ => rfl

theorem elementCountOf_eq : {cs ds : List ContentRule} → List.Forall₂ SameButIds cs ds →
    elementCountOf cs = elementCountOf ds
  | _, _, .nil => rfl
  | _, _, .cons first others => by
    rw [elementCountOf, elementCountOf, first.elementCount_eq, elementCountOf_eq others]

end

mutual

theorem SameButIds.valueRules : {c d : ContentRule} → c.SameButIds d →
    List.Forall₂ ValueRule.SameButIds c.valueRules d.valueRules
  | _, _, .element attributes content =>
    List.rel_append (ScalarRule.forall₂_toValueRule attributes) (forall₂_valueRulesOf content)
  | _, _, .data same => .cons ⟨same.target, same.requested, rfl⟩ .nil
  | _, _, .raw same => .cons ⟨same.target, same.requested, rfl⟩ .nil

theorem forall₂_valueRulesOf : {cs ds : List ContentRule} → List.Forall₂ SameButIds cs ds →
    List.Forall₂ ValueRule.SameButIds (valueRulesOf cs) (valueRulesOf ds)
  | _, _, .nil => .nil
  | _, _, .cons first others => List.rel_append first.valueRules (forall₂_valueRulesOf others)

end

mutual

theorem ruleIds_normalize : (c : ContentRule) →
    c.normalize.ruleIds = c.ruleIds.map fun _ => RuleId.nil
  | element _ _ attributes content => by
    rw [normalize, ruleIds, ruleIds, ScalarRule.ids_normalize, ruleIdsOf_normalizeAll content,
      List.map_append, List.map_cons]
  | data _ => rfl
  | raw _ _ => rfl

theorem ruleIdsOf_normalizeAll : (content : List ContentRule) →
    ruleIdsOf (normalizeAll content) = (ruleIdsOf content).map fun _ => RuleId.nil
  | [] => rfl
  | c :: rest => by
    rw [normalizeAll, ruleIdsOf, ruleIdsOf, ruleIds_normalize c, ruleIdsOf_normalizeAll rest,
      List.map_append]

end

end ContentRule

namespace ElementRule

variable {e f : ElementRule}

theorem toContent_normalize (e : ElementRule) : e.normalize.toContent = e.toContent.normalize := by
  rw [toContent, toContent, normalize, ContentRule.normalize]

theorem normalize_eq_iff : e.normalize = f.normalize ↔ e.toContent.SameButIds f.toContent := by
  rw [← toContent_inj, toContent_normalize, toContent_normalize, ContentRule.normalize_eq_iff]

end ElementRule

namespace Plan

def ruleIds (p : Plan) : List RuleId :=
  p.root.toContent.ruleIds ++ p.functions.map ScalarRule.id ++ p.parameters.map ScalarRule.id

/-- Equality of plans that takes the values kept for objects as a map, whatever their order. -/
structure Equal (p q : Plan) : Prop where
  stylesheet : p.stylesheet = q.stylesheet
  version : p.version = q.version
  valueSeed : p.valueSeed = q.valueSeed
  root : p.root = q.root
  functions : p.functions = q.functions
  parameters : p.parameters = q.parameters
  requestedValues : p.requestedValues.Agree q.requestedValues

/-- Plans of one structure: equal, but for the identities of their rules. -/
structure SameButIds (p q : Plan) : Prop where
  stylesheet : p.stylesheet = q.stylesheet
  version : p.version = q.version
  valueSeed : p.valueSeed = q.valueSeed
  root : p.root.toContent.SameButIds q.root.toContent
  functions : List.Forall₂ ScalarRule.SameButIds p.functions q.functions
  parameters : List.Forall₂ ScalarRule.SameButIds p.parameters q.parameters
  requestedValues : p.requestedValues.Agree q.requestedValues

variable {p q : Plan}

theorem normalize_sameButIds (p : Plan) : p.normalize.SameButIds p where
  stylesheet := rfl
  version := rfl
  valueSeed := rfl
  root := by
    show p.root.normalize.toContent.SameButIds p.root.toContent
    rw [ElementRule.toContent_normalize]
    exact p.root.toContent.normalize_sameButIds
  functions := ScalarRule.forall₂_normalize p.functions
  parameters := ScalarRule.forall₂_normalize p.parameters
  requestedValues := fun _ => rfl

theorem normalize_equal_iff : p.normalize.Equal q.normalize ↔ p.SameButIds q := by
  constructor
  · rintro ⟨stylesheet, version, valueSeed, root, functions, parameters, requestedValues⟩
    refine ⟨stylesheet, version, valueSeed, ?_, ?_, ?_, requestedValues⟩
    · exact ElementRule.normalize_eq_iff.mp root
    · exact ScalarRule.map_normalize_eq_iff.mp functions
    · exact ScalarRule.map_normalize_eq_iff.mp parameters
  · rintro ⟨stylesheet, version, valueSeed, root, functions, parameters, requestedValues⟩
    refine ⟨stylesheet, version, valueSeed, ?_, ?_, ?_, requestedValues⟩
    · exact ElementRule.normalize_eq_iff.mpr root
    · exact ScalarRule.map_normalize_eq_iff.mpr functions
    · exact ScalarRule.map_normalize_eq_iff.mpr parameters

theorem eq_iff_equal : p = q ↔ p.Equal q ∧ p.requestedValues.keys = q.requestedValues.keys := by
  constructor
  · rintro rfl
    exact ⟨⟨rfl, rfl, rfl, rfl, rfl, rfl, fun _ => rfl⟩, rfl⟩
  · rintro ⟨equal, order⟩
    have kept : p.requestedValues = q.requestedValues :=
      OrderedMap.eq_iff_agree.mpr ⟨equal.requestedValues, order⟩
    cases p
    cases q
    simp only [mk.injEq]
    exact ⟨equal.stylesheet, equal.version, equal.valueSeed, equal.root, equal.functions,
      equal.parameters, kept⟩

theorem normalize_eq_iff : p.normalize = q.normalize ↔
    p.SameButIds q ∧ p.requestedValues.keys = q.requestedValues.keys := by
  have keys : p.normalize.requestedValues.keys = q.normalize.requestedValues.keys ↔
      p.requestedValues.keys = q.requestedValues.keys := Iff.rfl
  rw [eq_iff_equal, normalize_equal_iff, keys]

theorem normalize_normalize (p : Plan) : p.normalize.normalize = p.normalize := by
  apply normalize_eq_iff.mpr
  exact ⟨p.normalize_sameButIds, rfl⟩

theorem SameButIds.valueRules (h : p.SameButIds q) :
    List.Forall₂ ValueRule.SameButIds p.valueRules q.valueRules := by
  have functions := ScalarRule.forall₂_toValueRule h.functions
  have parameters := ScalarRule.forall₂_toValueRule h.parameters
  exact List.rel_append (List.rel_append h.root.valueRules functions) parameters

theorem SameButIds.targets (h : p.SameButIds q) :
    p.valueRules.map ValueRule.target = q.valueRules.map ValueRule.target := by
  rw [← List.forall₂_eq_eq_eq, List.forall₂_map_left_iff, List.forall₂_map_right_iff]
  exact h.valueRules.imp fun r s same => same.target

theorem ruleIds_normalize (p : Plan) :
    p.normalize.ruleIds = List.replicate p.ruleIds.length RuleId.nil := by
  have tree : p.normalize.root.toContent.ruleIds =
      p.root.toContent.ruleIds.map fun _ => RuleId.nil := by
    rw [← ContentRule.ruleIds_normalize, ← ElementRule.toContent_normalize]
    rfl
  have functions := ScalarRule.ids_normalize p.functions
  have parameters := ScalarRule.ids_normalize p.parameters
  rw [← List.map_const', ruleIds, ruleIds, List.map_append, List.map_append, tree, ← functions,
    ← parameters]
  rfl

instance (p q : Plan) : Decidable (p.Equal q) :=
  decidable_of_iff (p.stylesheet = q.stylesheet ∧ p.version = q.version ∧
      p.valueSeed = q.valueSeed ∧ p.root = q.root ∧ p.functions = q.functions ∧
      p.parameters = q.parameters ∧ p.requestedValues.Agree q.requestedValues)
    ⟨fun ⟨uri, version, seed, root, fs, ps, kept⟩ => ⟨uri, version, seed, root, fs, ps, kept⟩,
      fun ⟨uri, version, seed, root, fs, ps, kept⟩ => ⟨uri, version, seed, root, fs, ps, kept⟩⟩

instance (p q : Plan) : Decidable (p.SameButIds q) := decidable_of_iff _ normalize_equal_iff

/-- Two plans are of one structure exactly if their normal forms are equal, whether or not the order
of the values kept for objects counts. A plan is of the structure of its normal form, which is normal
itself and has the nil identity for each identity of the plan. -/
theorem normal_forms_decide_structure (p q : Plan) :
    (p.normalize.Equal q.normalize ↔ p.SameButIds q) ∧
    (p.normalize = q.normalize ↔
      p.SameButIds q ∧ p.requestedValues.keys = q.requestedValues.keys) ∧
    p.normalize.normalize = p.normalize ∧
    p.normalize.ruleIds = List.replicate p.ruleIds.length RuleId.nil ∧
    p.normalize.elementCount = p.elementCount ∧
    p.normalize.valueRuleCount = p.valueRuleCount ∧
    p.normalize.valueRules.map ValueRule.target = p.valueRules.map ValueRule.target := by
  have kept : p.normalize.SameButIds p := p.normalize_sameButIds
  have elements : p.normalize.elementCount = p.elementCount := kept.root.elementCount_eq
  have values : p.normalize.valueRuleCount = p.valueRuleCount := kept.valueRules.length_eq
  exact ⟨normalize_equal_iff, normalize_eq_iff, p.normalize_normalize, p.ruleIds_normalize,
    elements, values, kept.targets⟩

/-- The order in which values were kept tells normal forms apart, but not structures. -/
example :
    let plan (id : RuleId) (kept : List (ObjectId × String)) : Plan :=
      ⟨"item.xsl", 1, 7, ⟨id, ⟨⟨3⟩⟩, [], [.raw ⟨id, ⟨⟨1⟩⟩, some "x"⟩ .full]⟩, [], [],
        .ofEntries kept⟩
    let one := plan ⟨⟨8⟩⟩ [(⟨⟨1⟩⟩, "x"), (⟨⟨2⟩⟩, "y")]
    let two := plan ⟨⟨9⟩⟩ [(⟨⟨2⟩⟩, "y"), (⟨⟨1⟩⟩, "x")]
    one.SameButIds two ∧ one.normalize ≠ two.normalize := by decide

end Plan

end TaintScan
