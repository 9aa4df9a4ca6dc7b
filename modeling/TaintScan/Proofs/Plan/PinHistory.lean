import Mathlib.Data.List.Induction
import TaintScan.Proofs.Document.Delivery
import TaintScan.Proofs.OrderedMap
import TaintScan.Proofs.Plan.Requested
import TaintScan.Proofs.Plan.Unrequested

namespace TaintScan

structure Pin where
  rule : RuleId
  object : ObjectId
  value : String
deriving DecidableEq

namespace Pin

variable {object : ObjectId} {pins : List Pin} {pin last : Pin}

/-- No later pin of the history is for the object. -/
def IsLatest (object : ObjectId) (pins : List Pin) (pin : Pin) : Prop :=
  ∃ earlier later, pins = earlier ++ pin :: later ∧ pin.object = object ∧
    ∀ q ∈ later, q.object ≠ object

theorem not_isLatest_nil : ¬ pin.IsLatest object [] := by
  rintro ⟨earlier, later, split, -⟩
  simp at split

theorem isLatest_concat : pin.IsLatest object (pins ++ [last]) ↔
    if last.object = object then pin = last else pin.IsLatest object pins := by
  constructor
  · rintro ⟨earlier, later, split, same, others⟩
    rcases List.eq_nil_or_concat later with rfl | ⟨later, final, rfl⟩
    · obtain ⟨-, ends⟩ := List.append_inj' split rfl
      cases ends
      rw [if_pos same]
    · rw [List.concat_eq_append, ← List.cons_append, ← List.append_assoc] at split
      obtain ⟨front, ends⟩ := List.append_inj' split rfl
      cases ends
      rw [if_neg (others last (by simp))]
      exact ⟨earlier, later, front, same, fun q member => others q (by simp [member])⟩
  · split
    · rename_i same
      rintro rfl
      exact ⟨pins, [], rfl, same, nofun⟩
    · rename_i differs
      rintro ⟨earlier, later, rfl, same, others⟩
      refine ⟨earlier, later ++ [last], by simp, same, fun q member => ?_⟩
      rcases List.mem_append.mp member with member | member
      · exact others q member
      · rw [List.mem_singleton.mp member]
        exact differs

end Pin

namespace PinsAt

variable {id : RuleId} {value : String} {earlier later rules pinned : List ValueRule}
  {rule r : ValueRule}

theorem mem_after (h : PinsAt id value earlier rule later rules pinned) :
    r ∈ pinned ↔ r ∈ earlier ∨ r = rule.pinned value ∨ r ∈ later := by
  rw [h.after, List.mem_append, List.mem_cons]

theorem mem_before (h : PinsAt id value earlier rule later rules pinned) :
    r ∈ rules ↔ r ∈ earlier ∨ r = rule ∨ r ∈ later := by
  rw [h.before, List.mem_append, List.mem_cons]

theorem ids (h : PinsAt id value earlier rule later rules pinned) :
    pinned.map ValueRule.id = rules.map ValueRule.id := by
  rw [h.before, h.after]
  simp [ValueRule.pinned]

theorem alone (h : PinsAt id value earlier rule later rules pinned)
    (distinct : (rules.map ValueRule.id).Nodup) : ∀ r ∈ later, r.id ≠ id := by
  rw [h.before, List.map_append, List.map_cons] at distinct
  obtain ⟨fresh, -⟩ := List.nodup_cons.mp (List.nodup_append.mp distinct).2.1
  intro r member same
  exact fresh (h.same ▸ same ▸ List.mem_map_of_mem member)

end PinsAt

namespace Plan

variable {p p' : Plan} {pins : List Pin} {pin : Pin}

/-- The plan with pins made one after another, each of them with success. -/
def modifyAll (p : Plan) (pins : List Pin) : Except Error Plan :=
  pins.foldlM (fun q pin => q.modify pin.rule pin.object pin.value) p

theorem modifyAll_concat : p.modifyAll (pins ++ [pin]) = .ok p' ↔
    ∃ q, p.modifyAll pins = .ok q ∧ q.modify pin.rule pin.object pin.value = .ok p' := by
  rw [modifyAll, List.foldlM_append, Outcome.bind_eq_ok]
  simp [modifyAll]

structure Reflects (pins : List Pin) (p : Plan) : Prop where
  index : ∀ object value, p.requestedForObject? object = some value ↔
    ∃ pin, Pin.IsLatest object pins pin ∧ pin.value = value
  carried : ∀ object pin, Pin.IsLatest object pins pin →
    ∃ r ∈ p.valueRules, r.id = pin.rule ∧ r.target = object ∧ r.requested = some pin.value
  asked : ∀ r ∈ p.valueRules, r.requested ≠ none → ∃ pin, Pin.IsLatest r.target pins pin

theorem reflects_nil (free : Unrequested p.valueRules) (bare : p.requestedValues = .empty) :
    Reflects [] p := by
  refine ⟨fun object value => ?_, fun object pin latest => ?_, fun r member asks => ?_⟩
  · have absent : p.requestedForObject? object = none := by
      rw [requestedForObject?, bare]
      rfl
    rw [absent]
    exact ⟨nofun, fun ⟨pin, latest, _⟩ => absurd latest Pin.not_isLatest_nil⟩
  · exact absurd latest Pin.not_isLatest_nil
  · exact absurd (free r member) asks

theorem ids_of_modify (edited : p.modify pin.rule pin.object pin.value = .ok p') :
    p'.valueRules.map ValueRule.id = p.valueRules.map ValueRule.id := by
  rcases (modify_eq_ok_iff.mp edited).2.rules with ⟨earlier, rule, later, pinned⟩
  exact pinned.ids

theorem Reflects.modify (h : Reflects pins p) (distinct : (p.valueRules.map ValueRule.id).Nodup)
    (edited : p.modify pin.rule pin.object pin.value = .ok p') : Reflects (pins ++ [pin]) p' := by
  rcases (modify_eq_ok_iff.mp edited).2.rules with ⟨earlier, rule, later, pinned⟩
  -- The rule that is pinned is the one whose target was compared with the object.
  have target : rule.target = pin.object :=
    target_of_modify edited (pinned.isLast (pinned.alone distinct)).1
  refine ⟨fun object value => ?_, fun object latest => ?_, fun r member asks => ?_⟩
  · rw [requestedForObject?_of_modify edited]
    by_cases same : pin.object = object
    · simp [Pin.isLatest_concat, same]
    · simp only [Pin.isLatest_concat, if_neg same, if_neg (Ne.symm same), h.index]
  · rw [Pin.isLatest_concat]
    by_cases same : pin.object = object
    · rw [if_pos same]
      rintro rfl
      exact ⟨rule.pinned latest.value, pinned.mem_after.mpr (.inr (.inl rfl)), pinned.same,
        target.trans same, rfl⟩
    · rw [if_neg same]
      intro before
      obtain ⟨r, member, id, aimed, asks⟩ := h.carried object latest before
      refine ⟨r, pinned.mem_after.mpr ?_, id, aimed, asks⟩
      rcases pinned.mem_before.mp member with front | rfl | back
      · exact .inl front
      · exact absurd (target.symm.trans aimed) same
      · exact .inr (.inr back)
  · by_cases same : pin.object = r.target
    · exact ⟨pin, Pin.isLatest_concat.mpr (by rw [if_pos same])⟩
    · have kept : r ∈ p.valueRules := by
        rcases pinned.mem_after.mp member with front | rfl | back
        · exact pinned.mem_before.mpr (.inl front)
        · exact absurd target.symm same
        · exact pinned.mem_before.mpr (.inr (.inr back))
      obtain ⟨before, latest⟩ := h.asked r kept asks
      exact ⟨before, Pin.isLatest_concat.mpr (by rwa [if_neg same])⟩

theorem reflects_of_modifyAll (start : Reflects [] p)
    (distinct : (p.valueRules.map ValueRule.id).Nodup) (edited : p.modifyAll pins = .ok p') :
    Reflects pins p' ∧ p'.valueRules.map ValueRule.id = p.valueRules.map ValueRule.id := by
  induction pins using List.reverseRecOn generalizing p' with
  | nil =>
    cases edited
    exact ⟨start, rfl⟩
  | append_singleton pins pin ih =>
    obtain ⟨q, before, last⟩ := modifyAll_concat.mp edited
    obtain ⟨reflects, ids⟩ := ih before
    exact ⟨reflects.modify (ids ▸ distinct) last, (ids_of_modify last).trans ids⟩

/-- In a plan that was grown with distinct identities and then had values pinned, the index holds an
object exactly when a value rule of the object asks for a value. What it holds is the value that was
pinned for the object last, and the rule of that pin asks for it. -/
theorem index_of_history {schema : Schema} {settings : GenerationSettings} {mode : RawMode}
    {choice : RootChoice} {source rest : Random.Source} {last : Plan}
    (made : generate schema settings mode choice source = .ok (p, rest))
    (distinct : (p.valueRules.map ValueRule.id).Nodup) (edited : p.modifyAll pins = .ok last)
    (object : ObjectId) :
    (object ∈ last.requestedValues.keys ↔
      ∃ r ∈ last.valueRules, r.target = object ∧ r.requested ≠ none) ∧
    (∀ value, last.requestedForObject? object = some value ↔
      ∃ pin, Pin.IsLatest object pins pin ∧ pin.value = value) ∧
    ∀ pin, Pin.IsLatest object pins pin →
      ∃ r ∈ last.valueRules, r.id = pin.rule ∧ r.target = object ∧ r.requested = some pin.value := by
  obtain ⟨free, bare⟩ := generate_unrequested made
  obtain ⟨reflects, -⟩ := reflects_of_modifyAll (reflects_nil free bare) distinct edited
  refine ⟨?_, reflects.index object, reflects.carried object⟩
  rw [OrderedMap.mem_keys_iff, Option.isSome_iff_exists]
  constructor
  · rintro ⟨value, held⟩
    obtain ⟨pin, latest, -⟩ := (reflects.index object value).mp held
    obtain ⟨r, member, -, target, asks⟩ := reflects.carried object pin latest
    exact ⟨r, member, target, by simp [asks]⟩
  · rintro ⟨r, member, rfl, asks⟩
    obtain ⟨pin, latest⟩ := reflects.asked r member asks
    exact ⟨pin.value, (reflects.index r.target pin.value).mpr ⟨pin, latest, rfl⟩⟩

section Trial

open Document (trialObject countingSource)

def entryType : ElementType := .ofData (trialObject 1) "entry" .anyText

def entriesType : ElementType :=
  (ElementType.ofElements (trialObject 2) "entries" .sequence).withChild
    ((ElementReference.exactlyOnce (trialObject 3) "entry" (trialObject 1)).withOccurs 2 (some 2))

def entriesSchema : Schema :=
  ⟨"entries.xsl", 1, [entryType, entriesType], [entriesType.reference (trialObject 4) "entries"], [], []⟩

def entryPins : List Pin :=
  [⟨⟨⟨0x2425262728294a2bac2d2e2f30313233⟩⟩, trialObject 1, "one"⟩,
    ⟨⟨⟨0x4445464748494a4b8c4d4e4f50515253⟩⟩, trialObject 1, "two"⟩,
    ⟨⟨⟨0x2425262728294a2bac2d2e2f30313233⟩⟩, trialObject 1, "three"⟩]

theorem index_of_history_entries : ∃ p rest last,
    generate entriesSchema .standard .full .uniform countingSource = .ok (p, rest) ∧
    (p.valueRules.map ValueRule.id).Nodup ∧ p.modifyAll entryPins = .ok last ∧
    trialObject 1 ∈ last.requestedValues.keys ∧
    last.requestedForObject? (trialObject 1) = some "three" ∧
    ∃ r ∈ last.valueRules, r.id = ⟨⟨0x2425262728294a2bac2d2e2f30313233⟩⟩ ∧
      r.target = trialObject 1 ∧ r.requested = some "three" := by
  obtain ⟨⟨⟨p, rest⟩, last⟩, done, distinct⟩ := Outcome.exists_of_any (x := do
      let grown ← generate entriesSchema .standard .full .uniform countingSource
      let last ← grown.1.modifyAll entryPins
      return (grown, last))
    (p := fun result => decide (result.1.1.valueRules.map ValueRule.id).Nodup) (by decide +kernel)
  obtain ⟨grown, made, more⟩ := Outcome.bind_eq_ok.mp done
  obtain ⟨plan, edited, same⟩ := Outcome.bind_eq_ok.mp more
  cases same
  have latest : Pin.IsLatest (trialObject 1) entryPins
      ⟨⟨⟨0x2425262728294a2bac2d2e2f30313233⟩⟩, trialObject 1, "three"⟩ :=
    ⟨entryPins.take 2, [], rfl, rfl, nofun⟩
  obtain ⟨keyed, index, carried⟩ :=
    index_of_history made (of_decide_eq_true distinct) edited (trialObject 1)
  obtain ⟨r, member, id, target, asks⟩ := carried _ latest
  exact ⟨p, rest, last, made, of_decide_eq_true distinct, edited,
    keyed.mpr ⟨r, member, target, by simp [asks]⟩, (index _).mpr ⟨_, latest, rfl⟩,
    r, member, id, target, asks⟩

end Trial

end Plan

end TaintScan
