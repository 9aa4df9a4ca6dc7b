import TaintScan.Plan.Modify

namespace TaintScan

def ValueRule.pinned (r : ValueRule) (value : String) : ValueRule :=
  { r with requested := some value }

inductive PinsFirst (id : RuleId) (value : String) : List ValueRule → List ValueRule → Prop
  | here {r : ValueRule} {rest : List ValueRule} (same : r.id = id) :
    PinsFirst id value (r :: rest) (r.pinned value :: rest)
  | later {r : ValueRule} {rest pinned : List ValueRule} (other : r.id ≠ id)
    (inside : PinsFirst id value rest pinned) : PinsFirst id value (r :: rest) (r :: pinned)

namespace PinsFirst

variable {id : RuleId} {value : String} {rules pinned : List ValueRule}

theorem append (h : PinsFirst id value rules pinned) (more : List ValueRule) :
    PinsFirst id value (rules ++ more) (pinned ++ more) := by
  induction h with
  | here same => exact .here same
  | later other _ ih => exact .later other ih

theorem prepend (h : PinsFirst id value rules pinned) {front : List ValueRule}
    (others : ∀ r ∈ front, r.id ≠ id) : PinsFirst id value (front ++ rules) (front ++ pinned) := by
  induction front with
  | nil => exact h
  | cons r front ih =>
    have first : r.id ≠ id := others r (by simp)
    exact .later first (ih fun q member => others q (List.mem_cons_of_mem _ member))

end PinsFirst

/-- The pinned rule, the rules before it, and those behind it, which are the same before and after.
No earlier rule has the identity. -/
structure PinsAt (id : RuleId) (value : String) (earlier : List ValueRule) (rule : ValueRule)
    (later rules pinned : List ValueRule) : Prop where
  before : rules = earlier ++ rule :: later
  after : pinned = earlier ++ rule.pinned value :: later
  same : rule.id = id
  first : ∀ r ∈ earlier, r.id ≠ id

theorem PinsFirst.split {id : RuleId} {value : String} {rules pinned : List ValueRule}
    (h : PinsFirst id value rules pinned) :
    ∃ earlier rule later, PinsAt id value earlier rule later rules pinned := by
  induction h with
  | @here r rest same => exact ⟨[], r, rest, rfl, rfl, same, by simp⟩
  | @later r _ _ other _ ih =>
    obtain ⟨earlier, rule, later, split⟩ := ih
    refine ⟨r :: earlier, rule, later, by rw [split.before]; rfl, by rw [split.after]; rfl,
      split.same, fun q member => ?_⟩
    rcases List.mem_cons.mp member with rfl | member
    · exact other
    · exact split.first q member

namespace PinsAt

variable {id : RuleId} {value : String} {earlier later rules pinned : List ValueRule}
  {rule : ValueRule}

theorem append (h : PinsAt id value earlier rule later rules pinned) (more : List ValueRule) :
    PinsAt id value earlier rule (later ++ more) (rules ++ more) (pinned ++ more) :=
  ⟨by rw [h.before]; simp, by rw [h.after]; simp, h.same, h.first⟩

theorem prepend (h : PinsAt id value earlier rule later rules pinned) {front : List ValueRule}
    (others : ∀ r ∈ front, r.id ≠ id) :
    PinsAt id value (front ++ earlier) rule later (front ++ rules) (front ++ pinned) := by
  refine ⟨by rw [h.before]; simp, by rw [h.after]; simp, h.same, fun r member => ?_⟩
  rcases List.mem_append.mp member with member | member
  · exact others r member
  · exact h.first r member

theorem length_lt (h : PinsAt id value earlier rule later rules pinned) :
    earlier.length < rules.length := by
  rw [h.before]
  simp

theorem find?_eq (h : PinsAt id value earlier rule later rules pinned) :
    rules.find? (fun r => r.id == id) = some rule := by
  have absent : earlier.find? (fun r => r.id == id) = none := by
    rw [List.find?_eq_none]
    intro r member
    simpa using h.first r member
  rw [h.before, List.find?_append, absent]
  simp [h.same]

end PinsAt

namespace ScalarRule

variable {id : RuleId} {value : String} {rules pinned : List ScalarRule}

theorem pinsFirst_of_pinFirst? {view : ScalarRule → ValueRule} (ids : ∀ r, (view r).id = r.id)
    (requests : ∀ r, view { r with requested := some value } = (view r).pinned value)
    (h : pinFirst? id value rules = some pinned) :
    PinsFirst id value (rules.map view) (pinned.map view) := by
  induction rules generalizing pinned with
  | nil => cases h
  | cons r rest ih =>
    by_cases same : r.id = id
    · simp only [pinFirst?, if_pos same, Option.some.injEq] at h
      rw [← h, List.map_cons, List.map_cons, requests]
      exact .here ((ids r).trans same)
    · simp only [pinFirst?, if_neg same, Option.map_eq_some_iff] at h
      obtain ⟨later, found, rfl⟩ := h
      exact .later (by rw [ids]; exact same) (ih found)

theorem targets_of_pinFirst? (h : pinFirst? id value rules = some pinned) :
    pinned.map target = rules.map target := by
  induction rules generalizing pinned with
  | nil => cases h
  | cons r rest ih =>
    by_cases same : r.id = id
    · simp only [pinFirst?, if_pos same, Option.some.injEq] at h
      rw [← h]
      rfl
    · simp only [pinFirst?, if_neg same, Option.map_eq_some_iff] at h
      obtain ⟨later, found, rfl⟩ := h
      rw [List.map_cons, List.map_cons, ih found]

theorem ids_of_pinFirst?_none (h : pinFirst? id value rules = none) : ∀ r ∈ rules, r.id ≠ id := by
  induction rules with
  | nil => simp
  | cons r rest ih =>
    by_cases same : r.id = id
    · simp [pinFirst?, same] at h
    · simp only [pinFirst?, if_neg same, Option.map_eq_none_iff] at h
      intro q member
      rcases List.mem_cons.mp member with rfl | member
      · exact same
      · exact ih h q member

theorem toValueRule_pinsFirst (h : pinFirst? id value rules = some pinned) :
    PinsFirst id value (rules.map toValueRule) (pinned.map toValueRule) :=
  pinsFirst_of_pinFirst? (fun _ => rfl) (fun _ => rfl) h

theorem toValueRule_ids (h : pinFirst? id value rules = none) :
    ∀ r ∈ rules.map toValueRule, r.id ≠ id := by
  intro r member
  obtain ⟨rule, inside, rfl⟩ := List.mem_map.mp member
  exact ids_of_pinFirst?_none h rule inside

end ScalarRule

namespace ContentRule

variable {id : RuleId} {value : String}

mutual

theorem ids_of_pin?_none : (c : ContentRule) → pin? id value c = none →
    ∀ r ∈ c.valueRules, r.id ≠ id
  | element own reference attributes content, h => by
    simp only [pin?] at h
    split at h
    · cases h
    · rename_i attributesOut
      have inside := ids_of_pinAmong?_none content (Option.map_eq_none_iff.mp h)
      intro r member
      rcases List.mem_append.mp member with member | member
      · exact ScalarRule.toValueRule_ids attributesOut r member
      · exact inside r member
  | data r, h => by simpa [pin?, valueRules, ScalarRule.toValueRule] using h
  | raw r mode, h => by simpa [pin?, valueRules, ScalarRule.toRawRule] using h

theorem ids_of_pinAmong?_none : (content : List ContentRule) →
    pinAmong? id value content = none → ∀ r ∈ valueRulesOf content, r.id ≠ id
  | [], _ => by simp [valueRulesOf]
  | c :: rest, h => by
    simp only [pinAmong?] at h
    split at h
    · cases h
    · rename_i firstOut
      have first := ids_of_pin?_none c firstOut
      have others := ids_of_pinAmong?_none rest (Option.map_eq_none_iff.mp h)
      intro r member
      rcases List.mem_append.mp member with member | member
      · exact first r member
      · exact others r member

end

mutual

theorem pin?_pinsFirst : (c : ContentRule) → {c' : ContentRule} → pin? id value c = some c' →
    PinsFirst id value c.valueRules c'.valueRules
  | element own reference attributes content, c', h => by
    simp only [pin?] at h
    split at h
    · rename_i pinned found
      cases h
      exact (ScalarRule.toValueRule_pinsFirst found).append _
    · rename_i attributesOut
      obtain ⟨changed, found, rfl⟩ := Option.map_eq_some_iff.mp h
      exact (pinAmong?_pinsFirst content found).prepend (ScalarRule.toValueRule_ids attributesOut)
  | data r, c', h => by
    simp only [pin?, Option.ite_none_right_eq_some, Option.some.injEq] at h
    obtain ⟨same, rfl⟩ := h
    exact .here same
  | raw r mode, c', h => by
    simp only [pin?, Option.ite_none_right_eq_some, Option.some.injEq] at h
    obtain ⟨same, rfl⟩ := h
    exact .here same

theorem pinAmong?_pinsFirst : (content : List ContentRule) → {content' : List ContentRule} →
    pinAmong? id value content = some content' →
    PinsFirst id value (valueRulesOf content) (valueRulesOf content')
  | c :: rest, content', h => by
    simp only [pinAmong?] at h
    split at h
    · rename_i changed found
      cases h
      exact (pin?_pinsFirst c found).append _
    · rename_i firstOut
      obtain ⟨changed, found, rfl⟩ := Option.map_eq_some_iff.mp h
      exact (pinAmong?_pinsFirst rest found).prepend (ids_of_pin?_none c firstOut)

end

theorem isEmpty_of_pinAmong? {content content' : List ContentRule}
    (h : pinAmong? id value content = some content') :
    content.isEmpty = false ∧ content'.isEmpty = false := by
  cases content with
  | nil => cases h
  | cons c rest =>
    simp only [pinAmong?] at h
    split at h
    · cases h
      exact ⟨rfl, rfl⟩
    · obtain ⟨changed, -, rfl⟩ := Option.map_eq_some_iff.mp h
      exact ⟨rfl, rfl⟩

end ContentRule

namespace ElementRule

variable {id : RuleId} {value : String} {e e' : ElementRule}

theorem pin?_toContent (id : RuleId) (value : String) (e : ElementRule) :
    e.toContent.pin? id value = (e.pin? id value).map toContent := by
  simp only [toContent, ContentRule.pin?, pin?]
  cases ScalarRule.pinFirst? id value e.attributes with
  | some attributes => rfl
  | none => cases ContentRule.pinAmong? id value e.content <;> rfl

theorem pin?_pinsFirst (h : e.pin? id value = some e') :
    PinsFirst id value e.valueRules e'.valueRules :=
  ContentRule.pin?_pinsFirst e.toContent (by rw [pin?_toContent, h]; rfl)

theorem ids_of_pin?_none (h : e.pin? id value = none) : ∀ r ∈ e.valueRules, r.id ≠ id :=
  ContentRule.ids_of_pin?_none e.toContent (by rw [pin?_toContent, h]; rfl)

end ElementRule

namespace Plan

variable {p p' : Plan} {id : RuleId} {object : ObjectId} {value : String}

/-- Where the pinned rule stands: in the tree, else among the functions, else among the
parameters. The other two parts of the plan stay. -/
inductive PinnedIn (id : RuleId) (value : String) (p p' : Plan) : Prop
  | tree (found : p.root.pin? id value = some p'.root) (functions : p'.functions = p.functions)
    (parameters : p'.parameters = p.parameters)
  | function (absent : p.root.pin? id value = none) (root : p'.root = p.root)
    (found : ScalarRule.pinFirst? id value p.functions = some p'.functions)
    (parameters : p'.parameters = p.parameters)
  | parameter (absent : p.root.pin? id value = none)
    (absentToo : ScalarRule.pinFirst? id value p.functions = none) (root : p'.root = p.root)
    (functions : p'.functions = p.functions)
    (found : ScalarRule.pinFirst? id value p.parameters = some p'.parameters)

theorem pin?_cases (h : p.pin? id value = some p') : PinnedIn id value p p' := by
  simp only [pin?] at h
  split at h
  · rename_i root found
    cases h
    exact .tree found rfl rfl
  · rename_i absent
    split at h
    · rename_i functions found
      cases h
      exact .function absent rfl found rfl
    · rename_i absentToo
      obtain ⟨parameters, found, rfl⟩ := Option.map_eq_some_iff.mp h
      exact .parameter absent absentToo rfl rfl found

theorem ids_of_pin?_none (h : p.pin? id value = none) : ∀ r ∈ p.valueRules, r.id ≠ id := by
  simp only [pin?] at h
  split at h
  · cases h
  · rename_i absent
    split at h
    · cases h
    · rename_i absentToo
      have last := ScalarRule.toValueRule_ids (Option.map_eq_none_iff.mp h)
      intro r member
      rcases List.mem_append.mp member with member | member
      · rcases List.mem_append.mp member with member | member
        · exact ElementRule.ids_of_pin?_none absent r member
        · exact ScalarRule.toValueRule_ids absentToo r member
      · exact last r member

theorem pin?_frame (h : p.pin? id value = some p') :
    p'.stylesheet = p.stylesheet ∧ p'.version = p.version ∧ p'.valueSeed = p.valueSeed ∧
      p'.requestedValues = p.requestedValues := by
  simp only [pin?] at h
  split at h
  · cases h
    exact ⟨rfl, rfl, rfl, rfl⟩
  · split at h
    · cases h
      exact ⟨rfl, rfl, rfl, rfl⟩
    · obtain ⟨parameters, found, rfl⟩ := Option.map_eq_some_iff.mp h
      exact ⟨rfl, rfl, rfl, rfl⟩

theorem PinnedIn.pinsFirst (h : PinnedIn id value p p') :
    PinsFirst id value p.valueRules p'.valueRules := by
  simp only [valueRules]
  cases h with
  | tree found functions parameters =>
    rw [functions, parameters]
    exact ((ElementRule.pin?_pinsFirst found).append _).append _
  | function absent root found parameters =>
    rw [root, parameters]
    exact ((ScalarRule.toValueRule_pinsFirst found).prepend
      (ElementRule.ids_of_pin?_none absent)).append _
  | parameter absent absentToo root functions found =>
    rw [root, functions]
    refine (ScalarRule.toValueRule_pinsFirst found).prepend fun r member => ?_
    rcases List.mem_append.mp member with member | member
    · exact ElementRule.ids_of_pin?_none absent r member
    · exact ScalarRule.toValueRule_ids absentToo r member

theorem lastRule?_eq_some (h : p.lastRule? id = some r) : r ∈ p.valueRules ∧ r.id = id := by
  have member := List.mem_of_find?_eq_some h
  have same := List.find?_some h
  exact ⟨List.mem_reverse.mp member, by simpa using same⟩

theorem exists_pin?_of_mem {r : ValueRule} (member : r ∈ p.valueRules) (same : r.id = id)
    (value : String) : ∃ p', p.pin? id value = some p' := by
  cases found : p.pin? id value with
  | some p' => exact ⟨p', rfl⟩
  | none => exact absurd same (ids_of_pin?_none found r member)

theorem modify_eq_ok (h : p.modify id object value = .ok p') :
    (∃ last, p.lastRule? id = some last ∧ last.target = object) ∧
      ∃ pinned, p.pin? id value = some pinned ∧
        p' = { pinned with requestedValues := p.requestedValues.insert object value } := by
  simp only [modify, targetOf] at h
  cases found : p.lastRule? id with
  | none =>
    simp only [found] at h
    split at h
    · cases h
    · rename_i target decided
      split at decided <;> cases decided
  | some last =>
    simp only [found] at h
    split at h
    · rename_i aimed
      cases h
      obtain ⟨member, same⟩ := lastRule?_eq_some found
      obtain ⟨pinned, done⟩ := exists_pin?_of_mem member same value
      exact ⟨⟨last, rfl, aimed⟩, pinned, done, by rw [done]; rfl⟩
    · cases h

end Plan

end TaintScan
