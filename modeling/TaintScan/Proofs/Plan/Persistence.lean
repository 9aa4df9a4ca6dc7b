import TaintScan.Plan.Persisted
import TaintScan.Proofs.Json.Decoding
import TaintScan.Proofs.Json.Nesting
import TaintScan.Proofs.OrderedMap
import TaintScan.Proofs.Schema.Persistence

namespace TaintScan

open Json (Value Decoder Fields Fault nestingLimit)
open Json.Value (present ofList? Fits tree trees memberTrees)

theorem RawMode.decoder_reads (m : RawMode) : RawMode.decoder.Reads m.toJson m :=
  Decoder.choice_reads (by cases m <;> rfl)

namespace ScalarRule

def slots (targetName : String) (r : ScalarRule) : List (String × Option Value) := [
  ("id", some r.id.toJson),
  (targetName, some r.target.toJson),
  ("requested_value", r.requested.map .string)]

theorem members_eq (targetName : String) (r : ScalarRule) :
    r.members targetName = present (r.slots targetName) := by
  simp [members, slots]

theorem toJson_eq (targetName : String) (r : ScalarRule) :
    r.toJson targetName = .object (present (r.slots targetName)) := by
  rw [toJson, members_eq]

theorem decoder_reads (targetName : String) (noId : targetName ≠ "id")
    (noValue : targetName ≠ "requested_value") (r : ScalarRule) : (decoder targetName).Reads (r.toJson targetName) r := by
  rw [toJson_eq]
  refine Decoder.record_reads (r.slots targetName) (by simp [slots, noId.symm, noValue])
    fun fields hold => ?_
  have id := hold.need "id" (by simp [slots]) r.id.decoder_reads
  have target := hold.need targetName (by simp [slots]) r.target.decoder_reads
  have requested := hold.find? "requested_value" r.requested (by simp [slots]) Decoder.text_reads
    nofun
  exact (((id.map mk).seq target).seq requested).congr (by simp [slots])

end ScalarRule

namespace ElementRule

def slots (e : ElementRule) : List (String × Option Value) := [
  ("id", some e.id.toJson),
  ("reference", some e.reference.toJson),
  ("attributes", ofList? (ScalarRule.toJson "attribute") e.attributes),
  ("content", ofList? ContentRule.toJson e.content)]

theorem toJson_eq (e : ElementRule) : e.toJson = .object (present e.slots) := by
  simp [toJson, slots]

theorem record_reads {α : Type} {d : Decoder ContentRule} (e : ElementRule)
    (reads : ∀ c ∈ e.content, d.Reads c.toJson c)
    (f : RuleId → ObjectId → List ScalarRule → List ContentRule → α) :
    (Decoder.record ["id", "reference", "attributes", "content"] fun fields => f
      <$> fields.need "id" RuleId.decoder
      <*> fields.need "reference" ObjectId.decoder
      <*> fields.list "attributes" (ScalarRule.decoder "attribute")
      <*> fields.list "content" d).Reads (.object (present e.slots))
        (f e.id e.reference e.attributes e.content) := by
  refine Decoder.record_reads e.slots (by simp [slots]) fun fields hold => ?_
  have id := hold.need "id" (by simp [slots]) e.id.decoder_reads
  have reference := hold.need "reference" (by simp [slots]) e.reference.decoder_reads
  have attributes := hold.list "attributes" e.attributes (by simp [slots])
    fun r _ => r.decoder_reads "attribute" (by decide) (by decide)
  have content := hold.list "content" e.content (by simp [slots]) reads
  have read := (id.map f).seq reference |>.seq attributes |>.seq content
  exact read.congr (by simp [slots, and_assoc])

end ElementRule

namespace ContentRule

/-- A value is passed over when it is read whole, as far as there is room for its nesting. -/
def PassedOver (v : Value) : Prop :=
  ∀ room, wholeFault room v.tree = if v.depth ≤ room then none else some .malformed

theorem passedOver_string (s : String) : PassedOver (.string s) := fun _ => rfl

theorem wholeFaultItems_trees {items : List Value} (all : ∀ v ∈ items, PassedOver v) (room : Nat) :
    wholeFaultItems room (trees items) =
      if Value.depthItems items ≤ room then none else some .malformed := by
  induction items with
  | nil => simp [wholeFaultItems, trees, Value.depthItems]
  | cons v rest ih =>
    have first := all v List.mem_cons_self room
    have others := ih fun w member => all w (List.mem_cons_of_mem v member)
    rw [trees, wholeFaultItems, first, others, Value.depthItems]
    simp only [Nat.max_le]
    by_cases front : v.depth ≤ room
    · simp [front]
    · simp [front]

theorem wholeFaultMembers_memberTrees {members : List (String × Value)}
    (all : ∀ m ∈ members, PassedOver m.2) (room : Nat) :
    wholeFaultMembers room (memberTrees members) =
      if Value.depthMembers members ≤ room then none else some .malformed := by
  induction members with
  | nil => simp [wholeFaultMembers, memberTrees, Value.depthMembers]
  | cons m rest ih =>
    have first := all m List.mem_cons_self room
    have others := ih fun n member => all n (List.mem_cons_of_mem m member)
    rw [memberTrees, wholeFaultMembers, first, others, Value.depthMembers]
    simp only [Nat.max_le]
    by_cases front : m.2.depth ≤ room
    · simp [front, wholeFaultKey]
    · simp [front, wholeFaultKey]

theorem passedOver_array {items : List Value} (all : ∀ v ∈ items, PassedOver v) :
    PassedOver (.array items) := by
  intro room
  cases room with
  | zero => simp [tree, wholeFault, Value.depth]
  | succ room => simp [tree, wholeFault, Value.depth, wholeFaultItems_trees all]

theorem passedOver_object {members : List (String × Value)}
    (all : ∀ m ∈ members, PassedOver m.2) : PassedOver (.object members) := by
  intro room
  cases room with
  | zero => simp [tree, wholeFault, Value.depth]
  | succ room => simp [tree, wholeFault, Value.depth, wholeFaultMembers_memberTrees all]

theorem passedOver_present {slots : List (String × Option Value)}
    (all : ∀ s ∈ slots, ∀ v ∈ s.2, PassedOver v) : ∀ m ∈ present slots, PassedOver m.2 := by
  intro m member
  obtain ⟨s, inside, shown⟩ := List.mem_filterMap.mp member
  obtain ⟨v, known, rfl⟩ := Option.map_eq_some_iff.mp shown
  exact all s inside v known

theorem passedOver_list {α : Type} {f : α → Value} {items : List α}
    (all : ∀ a ∈ items, PassedOver (f a)) : ∀ v ∈ ofList? f items, PassedOver v := by
  intro v known
  cases items with
  | nil => cases known
  | cons first rest =>
    cases known
    exact passedOver_array (by simpa using all)

def kind : ContentRule → Kind
  | element _ _ _ _ => .element
  | data _ => .data
  | raw _ _ => .raw

def Kind.text : Kind → String
  | .element => "element"
  | .data => "data"
  | .raw => "raw"

def slots : ContentRule → List (String × Option Value)
  | element id reference attributes content =>
    (ElementRule.mk id reference attributes content).slots
  | data r => r.slots "element_type"
  | raw r mode => r.slots "element_type" ++ [("mode", some mode.toJson)]

theorem toJsonAll_eq (content : List ContentRule) : toJsonAll content = content.map toJson := by
  induction content with
  | nil => rfl
  | cons c rest ih => rw [toJsonAll, ih, List.map_cons]

theorem toJson_eq (c : ContentRule) :
    c.toJson = .object (("kind", .string c.kind.text) :: present c.slots) := by
  cases c with
  | element id reference attributes content =>
    cases content with
    | nil => simp [toJson, slots, ElementRule.slots, kind, Kind.text, Value.listMember]
    | cons first rest =>
      simp [toJson, slots, ElementRule.slots, kind, Kind.text, Value.listMember, toJsonAll_eq]
  | data r => simp [toJson, slots, ScalarRule.members_eq, kind, Kind.text]
  | raw r mode => simp [toJson, slots, ScalarRule.members, ScalarRule.slots, kind, Kind.text]

theorem kind_not_mem_slots (c : ContentRule) : ∀ s ∈ c.slots, s.1 ≠ "kind" := by
  cases c with
  | element id reference attributes content => simp [slots, ElementRule.slots]
  | data r => simp [slots, ScalarRule.slots]
  | raw r mode => simp [slots, ScalarRule.slots]

section

variable {members : List (String × Value)} (k : Kind)

theorem taggedFault_memberTrees (other : ∀ m ∈ members, m.1 ≠ "kind") (room : Nat) :
    taggedFault room none true (memberTrees members) =
      wholeFaultMembers room (memberTrees members) := by
  induction members with
  | nil => rfl
  | cons m rest ih =>
    have name : m.1 ≠ "kind" := other m List.mem_cons_self
    have others := ih fun n member => other n (List.mem_cons_of_mem m member)
    rw [memberTrees, taggedFault, wholeFaultMembers, others]
    simpa using name

theorem firstFault_tagged (other : ∀ m ∈ members, m.1 ≠ "kind")
    (all : ∀ m ∈ members, PassedOver m.2) (room : Nat) :
    firstFault room (tree (.object (("kind", .string k.text) :: members))) =
      if Value.depth (.object (("kind", .string k.text) :: members)) ≤ room then none
      else some .malformed := by
  cases room with
  | zero => simp [tree, firstFault, Value.depth]
  | succ room =>
    have known : kindOf (.string (some k.text)) = .ok k := by cases k <;> rfl
    have behind := taggedFault_memberTrees other room
    rw [wholeFaultMembers_memberTrees all] at behind
    simp [tree, memberTrees, firstFault, taggedFault, known, behind, Value.depth,
      Value.depthMembers]

theorem isNotKind_of_mem (other : ∀ m ∈ members, m.1 ≠ "kind") :
    ∀ m ∈ memberTrees members, isNotKind m = true := by
  induction members with
  | nil => simp [memberTrees]
  | cons m rest ih =>
    have name : m.1 ≠ "kind" := other m List.mem_cons_self
    have others := ih fun n member => other n (List.mem_cons_of_mem m member)
    rw [memberTrees]
    exact List.forall_mem_cons.mpr ⟨by simp [isNotKind, name], others⟩

theorem untagged?_tagged (other : ∀ m ∈ members, m.1 ≠ "kind") :
    untagged? (tree (.object (("kind", .string k.text) :: members))) =
      some (k, tree (.object members)) := by
  have plain := isNotKind_of_mem other
  have kept : (memberTrees members).filter isNotKind = memberTrees members :=
    List.filter_eq_self.mpr plain
  have none : (memberTrees members).filter (fun m => !isNotKind m) = [] :=
    List.filter_eq_nil_iff.mpr fun m member => by simp [plain m member]
  have tag : isNotKind (.string (some "kind"), .string (some k.text)) = false := rfl
  have known : wholeKind? (.string (some k.text)) = some k := by cases k <;> rfl
  rw [tree, memberTrees, untagged?]
  simp [tag, kept, none, known, tree]

end

theorem passedOver_scalar (targetName : String) (r : ScalarRule) :
    ∀ s ∈ r.slots targetName, ∀ v ∈ s.2, PassedOver v := by
  simp [ScalarRule.slots, RuleId.toJson, ObjectId.toJson, passedOver_string]

theorem passedOver_element (e : ElementRule) (children : ∀ c ∈ e.content, PassedOver c.toJson) :
    ∀ s ∈ e.slots, ∀ v ∈ s.2, PassedOver v := by
  have attributes : ∀ v ∈ ofList? (ScalarRule.toJson "attribute") e.attributes, PassedOver v := by
    refine passedOver_list fun r _ => ?_
    rw [ScalarRule.toJson_eq]
    exact passedOver_object (passedOver_present (passedOver_scalar "attribute" r))
  have content := passedOver_list children
  simp only [ElementRule.slots, List.forall_mem_cons]
  refine ⟨?_, ?_, attributes, content, nofun⟩
  · simp [RuleId.toJson, passedOver_string]
  · simp [ObjectId.toJson, passedOver_string]

mutual

theorem passedOver_slots : (c : ContentRule) → ∀ s ∈ c.slots, ∀ v ∈ s.2, PassedOver v
  | element id reference attributes content =>
    passedOver_element ⟨id, reference, attributes, content⟩ (passedOver_content content)
  | data r => passedOver_scalar "element_type" r
  | raw r mode => by
    have rule := passedOver_scalar "element_type" r
    have mode : ∀ v ∈ some mode.toJson, PassedOver v := by
      simp [RawMode.toJson, passedOver_string]
    rw [slots]
    exact List.forall_mem_append.mpr ⟨rule, by simpa using mode⟩

theorem passedOver_content : (content : List ContentRule) → ∀ c ∈ content, PassedOver c.toJson
  | [] => by simp
  | c :: rest => by
    have tag : PassedOver (.string c.kind.text) := passedOver_string _
    have members := passedOver_present (passedOver_slots c)
    have first : PassedOver c.toJson := by
      rw [toJson_eq]
      exact passedOver_object (List.forall_mem_cons.mpr ⟨tag, members⟩)
    exact List.forall_mem_cons.mpr ⟨first, passedOver_content rest⟩

end

theorem depth_toJson (c : ContentRule) :
    c.toJson.depth = Value.depth (.object (present c.slots)) := by
  simp [toJson_eq, Value.depth, Value.depthMembers]

theorem kind_not_mem (c : ContentRule) : ∀ m ∈ present c.slots, m.1 ≠ "kind" := by
  intro m member
  have listed := (Value.names_present c.slots).subset (List.mem_map_of_mem member)
  obtain ⟨s, inside, same⟩ := List.mem_map.mp listed
  exact same ▸ c.kind_not_mem_slots s inside

theorem wholeMode_reads (m : RawMode) : Decoder.Reads wholeMode m.toJson m := m.decoder_reads

/-- A rule that nests no deeper than the budget is read by its kind. The induction is on the
budget, of which every element below another takes one. -/
theorem wholeDecoder_reads (c : ContentRule) {budget : Nat} (enough : c.toJson.depth ≤ budget) :
    (wholeDecoder budget).Reads c.toJson c := by
  induction budget generalizing c with
  | zero => simp [depth_toJson, Value.depth] at enough
  | succ budget ih =>
    intro room small
    have bare := untagged?_tagged c.kind c.kind_not_mem
    rw [depth_toJson] at enough ⊢
    rw [toJson_eq, wholeDecoder]
    simp only [bare]
    cases c with
    | element id reference attributes content =>
      have inside := Value.depth_present_le.mp enough ("content", ofList? toJson content)
        (by simp [slots, ElementRule.slots])
      have children : ∀ c ∈ content, c.toJson.depth ≤ budget := fun c member =>
        Nat.le_of_lt (Value.depth_lt_of_fits member inside)
      have read := ElementRule.record_reads ⟨id, reference, attributes, content⟩
        (fun c member => ih c (children c member)) element
      exact read room small
    | data r =>
      have rule := r.decoder_reads "element_type" (by decide) (by decide)
      rw [ScalarRule.toJson_eq] at rule
      exact rule.map data room small
    | raw r mode =>
      refine Decoder.record_reads (slots (raw r mode)) (by simp [slots, ScalarRule.slots])
        (fun fields hold => ?_) room small
      have id := hold.need "id" (by simp [slots, ScalarRule.slots]) r.id.decoder_reads
      have target := hold.need "element_type" (by simp [slots, ScalarRule.slots])
        r.target.decoder_reads
      have requested := hold.find? "requested_value" r.requested
        (by simp [slots, ScalarRule.slots]) Decoder.text_reads nofun
      have mode := hold.need "mode" (by simp [slots]) (wholeMode_reads mode)
      have read := (id.map fun id target requested mode => raw ⟨id, target, requested⟩ mode).seq target
        |>.seq requested |>.seq mode
      exact read.congr (by simp [slots, ScalarRule.slots, and_assoc])

theorem decoder_reads (c : ContentRule) : decoder.Reads c.toJson c := by
  intro room small
  have tagged := firstFault_tagged c.kind c.kind_not_mem
    (passedOver_present c.passedOver_slots) room
  rw [← toJson_eq] at tagged
  rw [decoder, tagged]
  by_cases fits : c.toJson.depth ≤ room
  · have enough : c.toJson.depth ≤ nestingLimit + 1 := by omega
    have read := c.wholeDecoder_reads enough room small
    rw [if_pos fits] at read
    simp only [if_pos fits, read]
  · simp only [if_neg fits]

end ContentRule

theorem ElementRule.decoder_reads (e : ElementRule) : ElementRule.decoder.Reads e.toJson e := by
  rw [toJson_eq]
  exact e.record_reads (fun c _ => c.decoder_reads) ElementRule.mk

namespace Plan

def requested? (values : OrderedMap ObjectId String) : Option Value :=
  match values.entries with
  | [] => none
  | entries => some (.object (entries.map fun e => (e.1.text, .string e.2)))

def slots (p : Plan) : List (String × Option Value) := [
  ("stylesheet_uri", some (.string p.stylesheet)),
  ("schema_version", some (.nat p.version.toNat)),
  ("value_seed", some (.nat p.valueSeed.toNat)),
  ("root", some p.root.toJson),
  ("extension_functions", ofList? (ScalarRule.toJson "function") p.functions),
  ("stylesheet_parameters", ofList? (ScalarRule.toJson "parameter") p.parameters),
  ("requested_values", requested? p.requestedValues)]

theorem requestedMember_eq (values : OrderedMap ObjectId String) :
    requestedMember values = present [("requested_values", requested? values)] := by
  unfold requestedMember requested?
  cases values.entries <;> rfl

theorem toJson_eq (p : Plan) : p.toJson = .object (present p.slots) := by
  simp [toJson, slots, requestedMember_eq]

theorem requestedDecoder_reads {values : OrderedMap ObjectId String} {v : Value}
    (known : requested? values = some v) : Decoder.Reads requestedDecoder v values := by
  have shape : v = .object (values.entries.map fun e => (e.1.text, .string e.2)) := by
    unfold requested? at known
    split at known
    · cases known
    · exact (Option.some.inj known).symm
  have entries := Decoder.table_reads (f := Value.string) ObjectId.ofText?_text
    fun e (_ : e ∈ values.entries) => Decoder.text_reads e.2
  have read := entries.map OrderedMap.ofEntries
  rw [OrderedMap.ofEntries_entries] at read
  rw [shape]
  exact read

theorem requested?_none {values : OrderedMap ObjectId String} (none : requested? values = none) :
    values = .empty := by
  obtain ⟨entries, distinct⟩ := values
  cases entries with
  | nil => rfl
  | cons e rest => cases none

theorem requested_gives {fields : Fields} {slots : List (String × Option Value)}
    (hold : fields.Hold slots) (values : OrderedMap ObjectId String)
    (member : ("requested_values", requested? values) ∈ slots) :
    (fields.get "requested_values" requestedDecoder (some OrderedMap.empty)).Gives
      (Fits fields.room (requested? values)) values := by
  cases known : requested? values with
  | none =>
    rw [known] at member
    rw [requested?_none known]
    exact hold.absent "requested_values" member OrderedMap.empty
  | some v =>
    rw [known] at member
    exact hold.get "requested_values" member (requestedDecoder_reads known) (some .empty)

theorem decoder_reads (p : Plan) : Plan.decoder.Reads p.toJson p := by
  rw [toJson_eq]
  refine Decoder.record_reads p.slots (by simp [slots]) fun fields hold => ?_
  have stylesheet := hold.need "stylesheet_uri" (by simp [slots]) (Decoder.text_reads p.stylesheet)
  have version := hold.need "schema_version" (by simp [slots]) (Decoder.uint32_reads p.version)
  have seed := hold.need "value_seed" (by simp [slots]) (Decoder.uint64_reads p.valueSeed)
  have root := hold.need "root" (by simp [slots]) p.root.decoder_reads
  have functions := hold.list "extension_functions" p.functions (by simp [slots])
    fun r _ => r.decoder_reads "function" (by decide) (by decide)
  have parameters := hold.list "stylesheet_parameters" p.parameters (by simp [slots])
    fun r _ => r.decoder_reads "parameter" (by decide) (by decide)
  have requested := requested_gives hold p.requestedValues (by simp [slots])
  have read := (stylesheet.map mk).seq version |>.seq seed |>.seq root |>.seq functions
    |>.seq parameters |>.seq requested
  exact read.congr (by simp [slots, and_assoc])

theorem ofJsonText_eq (p : Plan) : ofJsonText p.jsonText =
    if Json.nesting p.jsonText ≤ nestingLimit then .ok p else .error (.json .malformed) := by
  have depth : Json.nesting p.jsonText = p.toJson.depth := Json.nesting_pretty p.toJson
  rw [ofJsonText, depth, jsonText, p.decoder_reads.ofText]
  by_cases fits : p.toJson.depth ≤ nestingLimit
  · rw [if_pos fits, if_pos fits]
    rfl
  · rw [if_neg fits, if_neg fits]
    rfl

/-- A plan whose text nests no deeper than the reader goes is read back and written again as the
same text. A text that nests deeper is malformed to the reader. -/
theorem reloads_within_limit (p : Plan) :
    (Json.nesting p.jsonText ≤ 127 →
      ofJsonText p.jsonText = .ok p ∧ (ofJsonText p.jsonText).map jsonText = .ok p.jsonText) ∧
    (127 < Json.nesting p.jsonText → ofJsonText p.jsonText = .error (.json .malformed)) := by
  have limit : nestingLimit = 127 := rfl
  constructor
  · intro fits
    have read : ofJsonText p.jsonText = .ok p := by rw [ofJsonText_eq, limit, if_pos fits]
    refine ⟨read, ?_⟩
    rw [read]
    rfl
  · intro deeper
    rw [ofJsonText_eq, limit, if_neg (Nat.not_le.mpr deeper)]

def nestedContent : Nat → List ContentRule
  | 0 => [.data ⟨⟨⟨7⟩⟩, ⟨⟨1⟩⟩, some "\"\\\n\x01é😀"⟩, .raw ⟨⟨⟨7⟩⟩, ⟨⟨1⟩⟩, none⟩ .restricted]
  | n + 1 => [.element ⟨⟨7⟩⟩ ⟨⟨2⟩⟩ [] (nestedContent n)]

/-- A plan with a number of elements inside its root. Its rules share one identity, and a value is
requested for objects it has no rule for. -/
def nestedPlan (n : Nat) : Plan where
  stylesheet := "file:///a.xsl"
  version := 4294967295
  valueSeed := 18446744073709551615
  root := ⟨⟨⟨7⟩⟩, ⟨⟨4⟩⟩, [⟨⟨⟨7⟩⟩, ⟨⟨3⟩⟩, some ""⟩], nestedContent n⟩
  functions := []
  parameters := [⟨⟨⟨7⟩⟩, ⟨⟨6⟩⟩, none⟩]
  requestedValues := .ofEntries [(⟨⟨9⟩⟩, "z"), (⟨⟨8⟩⟩, "a")]

theorem reloads_within_limit_nested :
    (ofJsonText (nestedPlan 61).jsonText = .ok (nestedPlan 61) ∧
      (ofJsonText (nestedPlan 61).jsonText).map jsonText = .ok (nestedPlan 61).jsonText) ∧
    ofJsonText (nestedPlan 62).jsonText = .error (.json .malformed) := by
  have fits : Json.nesting (nestedPlan 61).jsonText = 126 := by
    rw [jsonText, Json.nesting_pretty]
    decide +kernel
  have deeper : Json.nesting (nestedPlan 62).jsonText = 128 := by
    rw [jsonText, Json.nesting_pretty]
    decide +kernel
  exact ⟨(reloads_within_limit (nestedPlan 61)).1 (by omega),
    (reloads_within_limit (nestedPlan 62)).2 (by omega)⟩

end Plan

end TaintScan
