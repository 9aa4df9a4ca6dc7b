import TaintScan.Proofs.Document.Readback
import TaintScan.Proofs.Plan.Growing

namespace TaintScan

def ValueRule.IsLast (id : RuleId) (rules : List ValueRule) (r : ValueRule) : Prop :=
  ∃ earlier later, rules = earlier ++ r :: later ∧ r.id = id ∧ ∀ q ∈ later, q.id ≠ id

namespace PinsFirst

variable {id : RuleId} {value : String} {rules pinned other : List ValueRule}

theorem unique (one : PinsFirst id value rules pinned) (two : PinsFirst id value rules other) :
    pinned = other := by
  induction one generalizing other with
  | here same =>
    cases two with
    | here _ => rfl
    | later differ _ => exact absurd same differ
  | later differ _ ih =>
    cases two with
    | here same => exact absurd same differ
    | later _ inside => rw [ih inside]

end PinsFirst

theorem PinsAt.pinsFirst {id : RuleId} {value : String} {earlier later rules pinned : List ValueRule}
    {r : ValueRule} (h : PinsAt id value earlier r later rules pinned) :
    PinsFirst id value rules pinned := by
  rw [h.before, h.after]
  exact (PinsFirst.here h.same).prepend h.first

namespace ScalarRule

variable {id : RuleId} {value : String} {rules pinned : List ScalarRule}

theorem toValueRule_injective : Function.Injective toValueRule := by
  intro a b same
  cases a
  cases b
  simpa [toValueRule] using same

theorem toRawRule_inj {a b : ScalarRule} {m n : RawMode} (same : a.toRawRule m = b.toRawRule n) :
    a = b ∧ m = n := by
  cases a
  cases b
  simpa [toRawRule, and_assoc] using same

theorem unpin_of_pinFirst? (h : pinFirst? id value rules = some pinned) :
    pinned.map unpin = rules.map unpin := by
  induction rules generalizing pinned with
  | nil => cases h
  | cons r rest ih =>
    by_cases same : r.id = id
    · simp only [pinFirst?, if_pos same, Option.some.injEq] at h
      rw [← h]
      rfl
    · simp only [pinFirst?, if_neg same, Option.map_eq_some_iff] at h
      obtain ⟨later, found, rfl⟩ := h
      rw [List.map_cons, List.map_cons, ih found]

end ScalarRule

namespace ContentRule

variable {id : RuleId} {value : String}

mutual

theorem length_valueRules_unpin : (c : ContentRule) → c.unpin.valueRules.length = c.valueRules.length
  | element _ _ attributes content => by
    simp [unpin, valueRules, length_valueRulesOf_unpinAll content]
  | data _ => rfl
  | raw _ _ => rfl

theorem length_valueRulesOf_unpinAll : (content : List ContentRule) →
    (valueRulesOf (unpinAll content)).length = (valueRulesOf content).length
  | [] => rfl
  | c :: rest => by
    simp [unpinAll, valueRulesOf, length_valueRules_unpin c, length_valueRulesOf_unpinAll rest]

end

mutual

theorem elementCount_unpin : (c : ContentRule) → c.unpin.elementCount = c.elementCount
  | element _ _ _ content => by rw [unpin, elementCount, elementCount, elementCountOf_unpinAll content]
  | data _ => rfl
  | raw _ _ => rfl

theorem elementCountOf_unpinAll : (content : List ContentRule) →
    elementCountOf (unpinAll content) = elementCountOf content
  | [] => rfl
  | c :: rest => by
    rw [unpinAll, elementCountOf, elementCountOf, elementCount_unpin c, elementCountOf_unpinAll rest]

end

mutual

theorem mem_ruleIds : (c : ContentRule) →
    (id ∈ c.ruleIds ↔ (∃ e ∈ c.elements, e.id = id) ∨ ∃ r ∈ c.valueRules, r.id = id)
  | element own reference attributes content => by
    have front : id ∈ attributes.map ScalarRule.id ↔
        ∃ r ∈ attributes.map ScalarRule.toValueRule, r.id = id := by
      simp [ScalarRule.toValueRule]
    have first : id = own ↔ (ElementRule.mk own reference attributes content).id = id := eq_comm
    rw [ruleIds, List.cons_append, List.mem_cons, List.mem_append, front, mem_ruleIdsOf content, first,
      elements, valueRules, List.exists_mem_cons_iff, ← or_assoc, or_or_or_comm]
    simp only [List.mem_append, or_and_right, exists_or]
  | data r => by simp [ruleIds, elements, valueRules, ScalarRule.toValueRule, eq_comm]
  | raw r mode => by simp [ruleIds, elements, valueRules, ScalarRule.toRawRule, eq_comm]

theorem mem_ruleIdsOf : (content : List ContentRule) → (id ∈ ruleIdsOf content ↔
    (∃ e ∈ elementsOf content, e.id = id) ∨ ∃ r ∈ valueRulesOf content, r.id = id)
  | [] => by simp [ruleIdsOf, elementsOf, valueRulesOf]
  | c :: rest => by
    rw [ruleIdsOf, List.mem_append, mem_ruleIds c, mem_ruleIdsOf rest, or_or_or_comm]
    simp only [elementsOf, valueRulesOf, List.mem_append, or_and_right, exists_or]

end

mutual

theorem unpin_of_pin? : (c : ContentRule) → {c' : ContentRule} → pin? id value c = some c' →
    c'.unpin = c.unpin
  | element own reference attributes content, c', h => by
    simp only [pin?] at h
    split at h
    · rename_i pinned found
      cases h
      rw [unpin, unpin, ScalarRule.unpin_of_pinFirst? found]
    · obtain ⟨changed, found, rfl⟩ := Option.map_eq_some_iff.mp h
      rw [unpin, unpin, unpinAll_of_pinAmong? content found]
  | data r, c', h => by
    simp only [pin?, Option.ite_none_right_eq_some, Option.some.injEq] at h
    obtain ⟨-, rfl⟩ := h
    rfl
  | raw r mode, c', h => by
    simp only [pin?, Option.ite_none_right_eq_some, Option.some.injEq] at h
    obtain ⟨-, rfl⟩ := h
    rfl

theorem unpinAll_of_pinAmong? : (content : List ContentRule) → {content' : List ContentRule} →
    pinAmong? id value content = some content' → unpinAll content' = unpinAll content
  | c :: rest, content', h => by
    simp only [pinAmong?] at h
    split at h
    · rename_i changed found
      cases h
      rw [unpinAll, unpinAll, unpin_of_pin? c found]
    · obtain ⟨changed, found, rfl⟩ := Option.map_eq_some_iff.mp h
      rw [unpinAll, unpinAll, unpinAll_of_pinAmong? rest found]

end

mutual

theorem eq_of_unpin : (c d : ContentRule) → c.unpin = d.unpin → c.valueRules = d.valueRules → c = d
  | element i r as cs, element j s bs ds, shape, rules => by
    simp only [unpin, element.injEq] at shape
    obtain ⟨rfl, rfl, attributes, content⟩ := shape
    have length := congrArg List.length attributes
    simp only [List.length_map] at length
    obtain ⟨front, back⟩ := List.append_inj rules (by simpa using length)
    rw [ScalarRule.toValueRule_injective.list_map front, eq_of_unpinAll cs ds content back]
  | data r, data s, _, rules => by
    rw [ScalarRule.toValueRule_injective (List.cons.inj rules).1]
  | raw r m, raw s n, _, rules => by
    obtain ⟨rfl, rfl⟩ := ScalarRule.toRawRule_inj (List.cons.inj rules).1
    rfl

theorem eq_of_unpinAll : (cs ds : List ContentRule) → unpinAll cs = unpinAll ds →
    valueRulesOf cs = valueRulesOf ds → cs = ds
  | [], [], _, _ => rfl
  | c :: cs, d :: ds, shape, rules => by
    obtain ⟨first, others⟩ := List.cons.inj shape
    have length : c.valueRules.length = d.valueRules.length := by
      rw [← length_valueRules_unpin c, first, length_valueRules_unpin d]
    obtain ⟨front, back⟩ := List.append_inj rules length
    rw [eq_of_unpin c d first front, eq_of_unpinAll cs ds others back]

end

end ContentRule

namespace OrderedMap

variable {κ α : Type} [DecidableEq κ]

def keeping (m : OrderedMap κ α) (k : κ) (a : α) : List (κ × α) :=
  if k ∈ m.keys then m.entries.map fun e => if e.1 = k then (k, a) else e
  else m.entries ++ [(k, a)]

theorem insertEntry_of_known {k : κ} (a : α) {entries : List (κ × α)}
    (distinct : (entries.map Prod.fst).Nodup) (known : k ∈ entries.map Prod.fst) :
    insertEntry k a entries = entries.map fun e => if e.1 = k then (k, a) else e := by
  induction entries with
  | nil => cases known
  | cons e rest ih =>
    obtain ⟨fresh, distinct⟩ := List.nodup_cons.mp distinct
    rw [insertEntry, List.map_cons]
    by_cases same : e.1 = k
    · have others : rest.map (fun e => if e.1 = k then (k, a) else e) = rest := by
        refine (List.map_congr_left fun f member => ?_).trans (List.map_id rest)
        have differ : f.1 ≠ k := fun again => fresh (same ▸ again ▸ List.mem_map_of_mem member)
        exact if_neg differ
      rw [if_pos same, if_pos same, others]
    · have later : k ∈ rest.map Prod.fst := (List.mem_cons.mp known).resolve_left (Ne.symm same)
      rw [if_neg same, if_neg same, ih distinct later]

theorem entries_insert (m : OrderedMap κ α) (k : κ) (a : α) :
    (m.insert k a).entries = m.keeping k a := by
  unfold keeping
  by_cases known : k ∈ m.keys
  · rw [if_pos known]
    exact insertEntry_of_known a m.distinct known
  · rw [if_neg known]
    exact insertEntry_of_fresh a known

omit [DecidableEq κ] in
theorem eq_of_entries {m n : OrderedMap κ α} (same : m.entries = n.entries) : m = n := by
  cases m
  cases n
  cases same
  rfl

end OrderedMap

namespace Plan

variable {p p' q : Plan} {id : RuleId} {object : ObjectId} {value : String} {r : ValueRule}

/-- The plan without its requests: identities, targets, modes, and the order of all rules. -/
def unpin (p : Plan) : Plan :=
  { p with
    root := ⟨p.root.id, p.root.reference, p.root.attributes.map ScalarRule.unpin,
      ContentRule.unpinAll p.root.content⟩
    functions := p.functions.map ScalarRule.unpin
    parameters := p.parameters.map ScalarRule.unpin
    requestedValues := .empty }

structure Edits (id : RuleId) (object : ObjectId) (value : String) (p p' : Plan) : Prop where
  shape : p'.unpin = p.unpin
  rules : ∃ earlier r later, PinsAt id value earlier r later p.valueRules p'.valueRules
  index : p'.requestedValues.entries = p.requestedValues.keeping object value

theorem elementCount_unpin (p : Plan) : p.unpin.elementCount = p.elementCount :=
  ContentRule.elementCount_unpin p.root.toContent

theorem eq_of_unpin (shape : p.unpin = q.unpin) (rules : p.valueRules = q.valueRules)
    (requested : p.requestedValues = q.requestedValues) : p = q := by
  obtain ⟨uri, version, seed, root, functions, parameters, values⟩ := p
  obtain ⟨uri', version', seed', root', functions', parameters', values'⟩ := q
  simp only [unpin, mk.injEq, and_true] at shape
  obtain ⟨rfl, rfl, rfl, tree, fs, ps⟩ := shape
  have tree : root.toContent.unpin = root'.toContent.unpin := congrArg ElementRule.toContent tree
  -- Equal shapes have equally many rules in each part, so both lists of rules split alike.
  have size := congrArg (fun c => c.valueRules.length) tree
  have size' := congrArg List.length fs
  simp only [ContentRule.length_valueRules_unpin, List.length_map] at size size'
  simp only [valueRules, List.append_assoc] at rules
  obtain ⟨front, rules⟩ := List.append_inj rules size
  obtain ⟨between, back⟩ := List.append_inj rules (by simpa using size')
  have content : root.toContent = root'.toContent := ContentRule.eq_of_unpin _ _ tree front
  have same : root = root' := ElementRule.toContent_inj.mp content
  rw [same, ScalarRule.toValueRule_injective.list_map between,
    ScalarRule.toValueRule_injective.list_map back, show values = values' from requested]

theorem Edits.unique (one : Edits id object value p p') (two : Edits id object value p q) :
    p' = q := by
  obtain ⟨_, _, _, rules⟩ := one.rules
  obtain ⟨_, _, _, others⟩ := two.rules
  apply eq_of_unpin (one.shape.trans two.shape.symm)
  · exact rules.pinsFirst.unique others.pinsFirst
  · exact OrderedMap.eq_of_entries (one.index.trans two.index.symm)

theorem unpin_of_pin? (h : p.pin? id value = some p') : p'.unpin = p.unpin := by
  obtain ⟨uri, version, seed, -⟩ := pin?_frame h
  have parts : p'.root.toContent.unpin = p.root.toContent.unpin ∧
      p'.functions.map ScalarRule.unpin = p.functions.map ScalarRule.unpin ∧
      p'.parameters.map ScalarRule.unpin = p.parameters.map ScalarRule.unpin := by
    cases pin?_cases h with
    | tree found functions parameters =>
      have pinned : p.root.toContent.pin? id value = some p'.root.toContent := by
        rw [ElementRule.pin?_toContent, found]
        rfl
      exact ⟨ContentRule.unpin_of_pin? _ pinned, by rw [functions], by rw [parameters]⟩
    | function _ root found parameters =>
      exact ⟨by rw [root], ScalarRule.unpin_of_pinFirst? found, by rw [parameters]⟩
    | parameter _ _ root functions found =>
      exact ⟨by rw [root], by rw [functions], ScalarRule.unpin_of_pinFirst? found⟩
  obtain ⟨tree, functions, parameters⟩ := parts
  simp only [ElementRule.toContent, ContentRule.unpin, ContentRule.element.injEq] at tree
  simp only [unpin, uri, version, seed, tree, functions, parameters]

theorem lastRule?_eq_some_iff : p.lastRule? id = some r ↔ r.IsLast id p.valueRules := by
  rw [lastRule?, List.find?_eq_some_iff_append]
  constructor
  · rintro ⟨same, back, front, split, others⟩
    refine ⟨front.reverse, back.reverse, ?_, by simpa using same, fun q member => ?_⟩
    · rw [← List.reverse_reverse p.valueRules, split]
      simp
    · simpa using others q (List.mem_reverse.mp member)
  · rintro ⟨earlier, later, split, same, others⟩
    refine ⟨by simpa using same, later.reverse, earlier.reverse, by simp [split], fun q member => ?_⟩
    simpa using others q (List.mem_reverse.mp member)

theorem lastRule?_eq_none_iff : p.lastRule? id = none ↔ ∀ r ∈ p.valueRules, r.id ≠ id := by
  simp [lastRule?]

theorem containsRule_iff (absent : ∀ r ∈ p.valueRules, r.id ≠ id) :
    p.root.containsRule id = true ↔ ∃ e ∈ p.elements, e.id = id := by
  rw [ElementRule.containsRule, List.contains_iff_mem, ContentRule.mem_ruleIds]
  constructor
  · rintro (element | ⟨r, member, same⟩)
    · exact element
    · exact absurd same (absent r (List.mem_append_left _ (List.mem_append_left _ member)))
  · exact .inl

theorem modify_of_last (last : r.IsLast id p.valueRules) (aimed : r.target = object)
    (value : String) : ∃ p', p.modify id object value = .ok p' ∧ Edits id object value p p' := by
  have found := lastRule?_eq_some_iff.mpr last
  obtain ⟨member, same⟩ := lastRule?_eq_some found
  obtain ⟨pinned, done⟩ := exists_pin?_of_mem member same value
  refine ⟨{ pinned with requestedValues := p.requestedValues.insert object value }, ?_, ?_, ?_, ?_⟩
  · simp only [modify, targetOf, found, aimed, done, if_true, Option.getD_some]
  · exact (unpin_of_pin? done : pinned.unpin = p.unpin)
  · exact (pin?_cases done).pinsFirst.split
  · exact OrderedMap.entries_insert _ _ _

theorem modify_of_other (last : r.IsLast id p.valueRules) (other : r.target ≠ object) :
    p.modify id object value = .error (.illegalState (.about (.otherTarget r.target) id object)) := by
  simp only [modify, targetOf, lastRule?_eq_some_iff.mpr last, if_neg other]

theorem modify_of_absent (absent : ∀ r ∈ p.valueRules, r.id ≠ id) :
    p.modify id object value = .error (if p.root.containsRule id then
      .illegalState (.about .elementRule id object) else .unknownRule id) := by
  simp only [modify, targetOf, lastRule?_eq_none_iff.mpr absent]
  split
  · rename_i decided
    split at decided
    · cases decided
      rename_i inside
      rw [if_pos inside]
    · cases decided
      rename_i outside
      rw [if_neg outside]
  · rename_i decided
    split at decided
    · cases decided
    · cases decided

inductive Refuses (id : RuleId) (object : ObjectId) (p : Plan) : Error → Prop
  | otherTarget {r : ValueRule} (last : r.IsLast id p.valueRules) (other : r.target ≠ object) :
    Refuses id object p (.illegalState (.about (.otherTarget r.target) id object))
  | elementRule (absent : ∀ r ∈ p.valueRules, r.id ≠ id) (element : ∃ e ∈ p.elements, e.id = id) :
    Refuses id object p (.illegalState (.about .elementRule id object))
  | unknownRule (absent : ∀ r ∈ p.valueRules, r.id ≠ id) (nowhere : ∀ e ∈ p.elements, e.id ≠ id) :
    Refuses id object p (.unknownRule id)

theorem modify_refused
    (unedited : ¬ ∃ r, ValueRule.IsLast id p.valueRules r ∧ r.target = object)
    (value : String) : ∃ e, p.modify id object value = .error e ∧ Refuses id object p e := by
  cases found : p.lastRule? id with
  | some r =>
    have last := lastRule?_eq_some_iff.mp found
    have other : r.target ≠ object := fun aimed => unedited ⟨r, last, aimed⟩
    exact ⟨_, modify_of_other last other, .otherTarget last other⟩
  | none =>
    have absent := lastRule?_eq_none_iff.mp found
    refine ⟨_, modify_of_absent absent, ?_⟩
    split
    · rename_i inside
      exact .elementRule absent ((containsRule_iff absent).mp inside)
    · rename_i outside
      refine .unknownRule absent fun e member same => outside ?_
      exact (containsRule_iff absent).mpr ⟨e, member, same⟩

theorem modify_of_refuses {e : Error} (refused : Refuses id object p e) (value : String) :
    p.modify id object value = .error e := by
  cases refused with
  | otherTarget last other => exact modify_of_other last other
  | elementRule absent element =>
    rw [modify_of_absent absent, if_pos ((containsRule_iff absent).mpr element)]
  | unknownRule absent nowhere =>
    rw [modify_of_absent absent, if_neg]
    rw [containsRule_iff absent]
    rintro ⟨e, member, same⟩
    exact nowhere e member same

theorem modify_eq_ok_iff : p.modify id object value = .ok p' ↔
    (∃ r, ValueRule.IsLast id p.valueRules r ∧ r.target = object) ∧ Edits id object value p p' := by
  constructor
  · intro edited
    obtain ⟨⟨r, found, aimed⟩, -⟩ := modify_eq_ok edited
    have last := lastRule?_eq_some_iff.mp found
    obtain ⟨q, same, edits⟩ := modify_of_last last aimed value
    rw [edited] at same
    cases same
    exact ⟨⟨r, last, aimed⟩, edits⟩
  · rintro ⟨⟨r, last, aimed⟩, edits⟩
    obtain ⟨q, done, others⟩ := modify_of_last last aimed value
    rw [done, others.unique edits]

theorem modify_eq_error_iff {e : Error} :
    p.modify id object value = .error e ↔ Refuses id object p e := by
  refine ⟨fun failed => ?_, fun refused => modify_of_refuses refused value⟩
  have unedited : ¬ ∃ r, ValueRule.IsLast id p.valueRules r ∧ r.target = object := by
    rintro ⟨r, last, aimed⟩
    obtain ⟨q, done, -⟩ := modify_of_last last aimed value
    rw [failed] at done
    cases done
  obtain ⟨f, same, refused⟩ := modify_refused unedited value
  rw [failed] at same
  cases same
  exact refused

theorem Edits.counts (h : Edits id object value p p') :
    p'.elementCount = p.elementCount ∧ p'.valueRuleCount = p.valueRuleCount := by
  obtain ⟨_, _, _, rules⟩ := h.rules
  constructor
  · rw [← elementCount_unpin, h.shape, elementCount_unpin]
  · rw [valueRuleCount, valueRuleCount, rules.before, rules.after]
    simp

/-- A value can be asked for exactly when the last value rule of the identity targets the object, and
then exactly one plan is the answer: the first value rule of the identity asks for the value, which is
kept for the object, and all else is as it was. Otherwise the error says which rule was met. -/
theorem modify_edits (p : Plan) (id : RuleId) (object : ObjectId) (value : String) :
    ((∃ p', p.modify id object value = .ok p') ↔
      ∃ r, ValueRule.IsLast id p.valueRules r ∧ r.target = object) ∧
    (∀ p', p.modify id object value = .ok p' →
      Edits id object value p p' ∧ p'.elementCount = p.elementCount ∧
        p'.valueRuleCount = p.valueRuleCount ∧ ∀ q, Edits id object value p q → q = p') ∧
    ∀ e, p.modify id object value = .error e ↔ Refuses id object p e := by
  refine ⟨⟨?_, ?_⟩, fun p' edited => ?_, fun e => modify_eq_error_iff⟩
  · rintro ⟨p', edited⟩
    exact (modify_eq_ok_iff.mp edited).1
  · rintro ⟨r, last, aimed⟩
    obtain ⟨p', done, -⟩ := modify_of_last last aimed value
    exact ⟨p', done⟩
  · have edits := (modify_eq_ok_iff.mp edited).2
    exact ⟨edits, edits.counts.1, edits.counts.2, fun q other => other.unique edits⟩

section Trial

open Document (trialPlan trialRule trialObject)

theorem modify_edits_shared_identity :
    (∃ p', trialPlan.modify (trialRule 11) (trialObject 1) "new" = .ok p' ∧
      Edits (trialRule 11) (trialObject 1) "new" trialPlan p' ∧
      p'.elementCount = 1 ∧ p'.valueRuleCount = 2) ∧
    trialPlan.modify (trialRule 11) (trialObject 2) "new" =
      .error (.illegalState (.about (.otherTarget (trialObject 1)) (trialRule 11) (trialObject 2))) ∧
    trialPlan.modify (trialRule 10) (trialObject 3) "new" =
      .error (.illegalState (.about .elementRule (trialRule 10) (trialObject 3))) ∧
    trialPlan.modify (trialRule 9) (trialObject 3) "new" = .error (.unknownRule (trialRule 9)) := by
  have last : ValueRule.IsLast (trialRule 11) trialPlan.valueRules
      ⟨trialRule 11, trialObject 1, none, none⟩ :=
    ⟨[⟨trialRule 11, trialObject 2, some "old", none⟩], [], rfl, rfl, nofun⟩
  obtain ⟨possible, edited, -⟩ := modify_edits trialPlan (trialRule 11) (trialObject 1) "new"
  obtain ⟨p', done⟩ := possible.mpr ⟨_, last, rfl⟩
  obtain ⟨edits, elements, values, -⟩ := edited p' done
  refine ⟨⟨p', done, edits, elements, values⟩, ?_, ?_, ?_⟩
  · exact ((modify_edits trialPlan _ _ "new").2.2 _).mpr (.otherTarget last (by decide))
  · exact ((modify_edits trialPlan _ _ "new").2.2 _).mpr (.elementRule (by decide) (by decide))
  · exact ((modify_edits trialPlan _ _ "new").2.2 _).mpr (.unknownRule (by decide) (by decide))

end Trial

end Plan

end TaintScan
