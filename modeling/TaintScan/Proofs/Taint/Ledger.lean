import Mathlib.Data.List.Basic
import Mathlib.Data.List.Induction
import TaintScan.Taint.Ledger

namespace TaintScan

namespace Descriptor

/-- The value is tracked, and its token stands in the text. -/
def OccursIn (d : Descriptor) (text : String) : Prop :=
  ∃ token, d.marker = some token ∧ token.toList <:+: text.toList

theorem isFoundIn_iff {d : Descriptor} {text : String} : d.isFoundIn text = true ↔ d.OccursIn text := by
  unfold isFoundIn OccursIn
  cases d.marker with
  | none => simp
  | some token => simp [Text.contains, Text.occursIn_iff_infix]

instance (d : Descriptor) (text : String) : Decidable (d.OccursIn text) :=
  decidable_of_iff _ isFoundIn_iff

theorem OccursIn.isTracked {d : Descriptor} {text : String} (occurs : d.OccursIn text) :
    d.isTracked = true := by
  rcases occurs with ⟨token, marked, -⟩
  rw [Descriptor.isTracked, marked, Option.isSome_some]

end Descriptor

namespace Ledger

variable {l : Ledger} {ds : List Descriptor} {rule : RuleId} {object : ObjectId} {place : Nat}

theorem toList_record (l : Ledger) (d : Descriptor) : (l.record d).toList = l.toList ++ [d] := by
  simp [record, toList]

theorem ofList_concat (ds : List Descriptor) (d : Descriptor) :
    ofList (ds ++ [d]) = (ofList ds).record d := List.foldl_concat record empty d ds

theorem toList_ofList (ds : List Descriptor) : (ofList ds).toList = ds := by
  induction ds using List.reverseRecOn with
  | nil => rfl
  | append_singleton ds d ih => rw [ofList_concat, toList_record, ih]

/-- Every place in the indexes is in range, and a descriptor of the rule, or of the object, stands
there. -/
structure Indexed (l : Ledger) : Prop where
  rules : ∀ rule place, l.lastOfRule[rule]? = some place →
    ∃ d : Descriptor, l.descriptors[place]? = some d ∧ d.rule = rule
  objects : ∀ object, ∀ place ∈ l.placesOfObject.getD object [],
    ∃ d : Descriptor, l.descriptors[place]? = some d ∧ d.object = object

theorem empty_indexed : empty.Indexed := by
  constructor
  · intro rule place held
    simp [empty] at held
  · intro object place held
    simp [empty] at held

theorem getElem?_record_last (l : Ledger) (d : Descriptor) :
    (l.record d).descriptors[l.descriptors.size]? = some d := Array.getElem?_push_size

theorem getElem?_record {found : Descriptor} (d : Descriptor)
    (held : l.descriptors[place]? = some found) :
    (l.record d).descriptors[place]? = some found := by
  obtain ⟨bound, stands⟩ := Array.getElem?_eq_some_iff.mp held
  rw [record, Array.getElem?_push_lt bound, stands]

theorem lastOfRule_record (l : Ledger) (d : Descriptor) (rule : RuleId) :
    (l.record d).lastOfRule[rule]? =
      if d.rule = rule then some l.descriptors.size else l.lastOfRule[rule]? := by
  simp only [record, Std.HashMap.getElem?_insert, beq_iff_eq]

theorem placesOfObject_record (l : Ledger) (d : Descriptor) (object : ObjectId) :
    (l.record d).placesOfObject.getD object [] = l.placesOfObject.getD object [] ++
      if d.object = object then [l.descriptors.size] else [] := by
  simp only [record, Std.HashMap.getD_insert, beq_iff_eq]
  split
  · rename_i same
    rw [same]
  · rw [List.append_nil]

theorem Indexed.record (h : l.Indexed) (d : Descriptor) : (l.record d).Indexed := by
  constructor
  · intro rule place held
    rw [lastOfRule_record] at held
    split at held
    · rename_i same
      cases held
      exact ⟨d, getElem?_record_last l d, same⟩
    · obtain ⟨found, stands, carries⟩ := h.rules rule place held
      exact ⟨found, getElem?_record d stands, carries⟩
  · intro object place held
    rw [placesOfObject_record] at held
    rcases List.mem_append.mp held with held | latest
    · obtain ⟨found, stands, carries⟩ := h.objects object place held
      exact ⟨found, getElem?_record d stands, carries⟩
    · split at latest
      · rename_i same
        rw [List.mem_singleton.mp latest]
        exact ⟨d, getElem?_record_last l d, same⟩
      · cases latest

theorem Indexed.byRule?_record (h : l.Indexed) (d : Descriptor) (rule : RuleId) :
    (l.record d).byRule? rule = if d.rule = rule then some d else l.byRule? rule := by
  rw [byRule?, lastOfRule_record]
  split
  · exact getElem?_record_last l d
  · rw [byRule?]
    cases held : l.lastOfRule[rule]? with
    | none => rfl
    | some place =>
      obtain ⟨found, stands, -⟩ := h.rules rule place held
      rw [Option.bind_some, Option.bind_some, stands, getElem?_record d stands]

theorem Indexed.byObject_record (h : l.Indexed) (d : Descriptor) (object : ObjectId) :
    (l.record d).byObject object = l.byObject object ++ if d.object = object then [d] else [] := by
  have earlier : (l.placesOfObject.getD object []).filterMap
      (fun place => (l.record d).descriptors[place]?) = l.byObject object := by
    refine List.filterMap_congr fun place held => ?_
    obtain ⟨found, stands, -⟩ := h.objects object place held
    rw [stands, getElem?_record d stands]
  rw [byObject, placesOfObject_record, List.filterMap_append, earlier]
  split
  · rw [List.filterMap_cons_some (getElem?_record_last l d), List.filterMap_nil]
  · rfl

theorem ofList_indexed (ds : List Descriptor) : (ofList ds).Indexed := by
  induction ds using List.reverseRecOn with
  | nil => exact empty_indexed
  | append_singleton ds d ih =>
    rw [ofList_concat]
    exact ih.record d

theorem byRule?_ofList (ds : List Descriptor) (rule : RuleId) :
    (ofList ds).byRule? rule = (ds.filter fun d => d.rule = rule).getLast? := by
  induction ds using List.reverseRecOn with
  | nil => simp [ofList, empty, byRule?]
  | append_singleton ds d ih =>
    rw [ofList_concat, (ofList_indexed ds).byRule?_record, ih, List.filter_append]
    by_cases same : d.rule = rule
    · simp [same]
    · simp [same]

theorem byObject_ofList (ds : List Descriptor) (object : ObjectId) :
    (ofList ds).byObject object = ds.filter fun d => d.object = object := by
  induction ds using List.reverseRecOn with
  | nil => simp [ofList, empty, byObject]
  | append_singleton ds d ih =>
    rw [ofList_concat, (ofList_indexed ds).byObject_record, ih, List.filter_append]
    by_cases same : d.object = object
    · simp [same]
    · simp [same]

theorem findIn_ofList (ds : List Descriptor) (text : String) :
    (ofList ds).findIn text = ds.filter fun d => d.OccursIn text := by
  rw [findIn, tracked, toList_ofList, List.filter_filter]
  refine List.filter_congr fun d _ => ?_
  rw [Bool.eq_iff_iff, decide_eq_true_iff, Bool.and_eq_true, Descriptor.isFoundIn_iff]
  exact ⟨And.left, fun occurs => ⟨occurs, occurs.isTracked⟩⟩

/-- A ledger answers by what was recorded, in order and with all repetitions: a rule has its last
descriptor, an object has all of its descriptors, and a text has those whose token occurs in it. No
place in an index is ever out of range. -/
theorem answers_by_history (ds : List Descriptor) :
    (ofList ds).toList = ds ∧
    (∀ rule, (ofList ds).byRule? rule = (ds.filter fun d => d.rule = rule).getLast?) ∧
    (∀ object, (ofList ds).byObject object = ds.filter fun d => d.object = object) ∧
    (ofList ds).tracked = ds.filter (fun d => d.marker.isSome) ∧
    (∀ text, (ofList ds).findIn text = ds.filter fun d => d.OccursIn text) ∧
    (ofList ds).Indexed := by
  have tracked : (ofList ds).tracked = ds.filter (fun d => d.marker.isSome) := by
    rw [Ledger.tracked, toList_ofList]
    rfl
  exact ⟨toList_ofList ds, byRule?_ofList ds, byObject_ofList ds, tracked, findIn_ofList ds,
    ofList_indexed ds⟩

end Ledger

end TaintScan
