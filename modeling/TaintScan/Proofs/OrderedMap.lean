import TaintScan.OrderedMap

namespace TaintScan.OrderedMap

variable {κ α : Type} [DecidableEq κ]

theorem mem_keys_iff {m : OrderedMap κ α} {k : κ} : k ∈ m.keys ↔ (m.get? k).isSome = true := by
  have absent : m.get? k = none ↔ k ∉ m.keys := by
    rw [get?, List.lookup_eq_none_iff, keys, List.mem_map]
    constructor
    · rintro others ⟨e, member, rfl⟩
      exact absurd (others e member) (by simp)
    · intro unlisted e member
      rw [bne_iff_ne]
      rintro rfl
      exact unlisted ⟨e, member, rfl⟩
  rw [← Option.ne_none_iff_isSome, ne_eq, absent, Classical.not_not]

theorem get?_insert_of_free {m : OrderedMap κ α} {k key : κ} {v value : α}
    (known : m.get? k = some v) (free : m.get? key = none) :
    (m.insert key value).get? k = some v := by
  have differs : k ≠ key := by
    rintro rfl
    rw [known] at free
    cases free
  rw [get?_insert, if_neg differs, known]

theorem keys_insertEntry (k : κ) (a b : α) {entries others : List (κ × α)}
    (h : entries.map Prod.fst = others.map Prod.fst) :
    (insertEntry k a entries).map Prod.fst = (insertEntry k b others).map Prod.fst := by
  induction entries generalizing others with
  | nil =>
    cases others with
    | nil => rfl
    | cons e rest => cases h
  | cons e rest ih =>
    cases others with
    | nil => cases h
    | cons f others =>
      simp only [List.map_cons, List.cons.injEq] at h
      obtain ⟨⟨i, x⟩, ⟨j, y⟩⟩ := e, f
      obtain rfl : i = j := h.1
      by_cases same : i = k
      · simp [insertEntry, same, h.2]
      · simp [insertEntry, same, ih h.2]

theorem insertEntry_of_fresh {k : κ} (a : α) {entries : List (κ × α)}
    (fresh : k ∉ entries.map Prod.fst) : insertEntry k a entries = entries ++ [(k, a)] := by
  induction entries with
  | nil => rfl
  | cons e rest ih =>
    rw [List.map_cons, List.mem_cons, not_or] at fresh
    rw [insertEntry, if_neg (Ne.symm fresh.1), ih fresh.2, List.cons_append]

theorem entries_insertAll {m : OrderedMap κ α} {entries : List (κ × α)}
    (distinct : ((m.entries ++ entries).map Prod.fst).Nodup) :
    (entries.foldl (fun m e => m.insert e.1 e.2) m).entries = m.entries ++ entries := by
  induction entries generalizing m with
  | nil => simp
  | cons e rest ih =>
    have fresh : e.1 ∉ m.entries.map Prod.fst := by
      rw [List.map_append, List.map_cons, List.nodup_append] at distinct
      intro known
      exact distinct.2.2 _ known _ List.mem_cons_self rfl
    have inserted : (m.insert e.1 e.2).entries = m.entries ++ [e] := insertEntry_of_fresh e.2 fresh
    have again := ih (m := m.insert e.1 e.2) (by rw [inserted]; simpa using distinct)
    rw [List.foldl_cons, again, inserted, List.append_assoc, List.singleton_append]

theorem entries_ofEntries {entries : List (κ × α)} (distinct : (entries.map Prod.fst).Nodup) :
    (ofEntries entries).entries = entries :=
  entries_insertAll (m := empty) distinct

theorem ofEntries_entries (m : OrderedMap κ α) : ofEntries m.entries = m := by
  have same : (ofEntries m.entries).entries = m.entries := entries_ofEntries m.distinct
  obtain ⟨entries, distinct⟩ := m
  generalize ofEntries entries = other at same
  cases other
  cases same
  rfl

theorem get?_insertAll_of_fresh {k : κ} {entries : List (κ × α)} (fresh : k ∉ entries.map Prod.fst)
    (m : OrderedMap κ α) : (entries.foldl (fun m e => m.insert e.1 e.2) m).get? k = m.get? k := by
  induction entries generalizing m with
  | nil => rfl
  | cons e rest ih =>
    rw [List.map_cons, List.mem_cons, not_or] at fresh
    rw [List.foldl_cons, ih fresh.2, get?_insert, if_neg fresh.1]

theorem get?_ofEntries_last {k : κ} {a : α} {front back : List (κ × α)}
    (fresh : k ∉ back.map Prod.fst) : (ofEntries (front ++ (k, a) :: back)).get? k = some a := by
  rw [ofEntries, List.foldl_append, List.foldl_cons, get?_insertAll_of_fresh fresh, get?_insert,
    if_pos rfl]

theorem get?_of_mem {m : OrderedMap κ α} {k : κ} {a : α} (member : (k, a) ∈ m.entries) :
    m.get? k = some a := by
  obtain ⟨front, back, split⟩ := List.append_of_mem member
  have distinct := m.distinct
  rw [split, List.map_append, List.map_cons, List.nodup_append, List.nodup_cons] at distinct
  rw [← ofEntries_entries m, split]
  exact get?_ofEntries_last distinct.2.1.1

/-- The same values are kept under the same keys, in whatever order they were entered. -/
def Agree (m n : OrderedMap κ α) : Prop := ∀ k, m.get? k = n.get? k

theorem agree_iff {m n : OrderedMap κ α} :
    m.Agree n ↔ ∀ k ∈ m.keys ++ n.keys, m.get? k = n.get? k := by
  refine ⟨fun same k _ => same k, fun same k => ?_⟩
  by_cases listed : k ∈ m.keys ++ n.keys
  · exact same k listed
  · rw [List.mem_append, not_or, mem_keys_iff, mem_keys_iff, Option.not_isSome_iff_eq_none,
      Option.not_isSome_iff_eq_none] at listed
    rw [listed.1, listed.2]

instance [DecidableEq α] (m n : OrderedMap κ α) : Decidable (m.Agree n) :=
  decidable_of_iff _ agree_iff.symm

theorem eq_iff_agree {m n : OrderedMap κ α} : m = n ↔ m.Agree n ∧ m.keys = n.keys := by
  constructor
  · rintro rfl
    exact ⟨fun _ => rfl, rfl⟩
  · rintro ⟨agree, keys⟩
    have sizes : m.entries.length = n.entries.length := by
      simpa [OrderedMap.keys] using congrArg List.length keys
    have entries : m.entries = n.entries := by
      apply List.ext_getElem sizes
      intro i first second
      have key : m.entries[i].1 = n.entries[i].1 := by
        have same := congrArg (fun ks : List κ => ks[i]?) keys
        simpa [OrderedMap.keys, first, second] using same
      have here : m.get? m.entries[i].1 = some m.entries[i].2 :=
        get?_of_mem (List.getElem_mem first)
      have there : n.get? n.entries[i].1 = some n.entries[i].2 :=
        get?_of_mem (List.getElem_mem second)
      rw [agree, key, there] at here
      exact Prod.ext key (Option.some.inj here.symm)
    rw [← ofEntries_entries m, entries, ofEntries_entries]

/-- The keys are the same in the same order, and all of them but one have the same value. -/
structure AgreeOff (k : κ) (m n : OrderedMap κ α) : Prop where
  keys : m.keys = n.keys
  values : ∀ j, j ≠ k → m.get? j = n.get? j

namespace AgreeOff

variable {k : κ} {m n : OrderedMap κ α}

theorem refl (k : κ) (m : OrderedMap κ α) : AgreeOff k m m := ⟨rfl, fun _ _ => rfl⟩

theorem insert (h : AgreeOff k m n) (j : κ) (a : α) : AgreeOff k (m.insert j a) (n.insert j a) := by
  refine ⟨keys_insertEntry j a a h.keys, fun i other => ?_⟩
  rw [get?_insert, get?_insert, h.values i other]

theorem insert_at (h : AgreeOff k m n) (a b : α) : AgreeOff k (m.insert k a) (n.insert k b) := by
  refine ⟨keys_insertEntry k a b h.keys, fun i other => ?_⟩
  rw [get?_insert, get?_insert, if_neg other, if_neg other, h.values i other]

theorem insertAll (h : AgreeOff k m n) (entries : List (κ × α)) :
    AgreeOff k (entries.foldl (fun m e => m.insert e.1 e.2) m)
      (entries.foldl (fun m e => m.insert e.1 e.2) n) := by
  induction entries generalizing m n with
  | nil => exact h
  | cons e rest ih => exact ih (h.insert e.1 e.2)

theorem ofEntries (front back : List (κ × α)) (a b : α) :
    AgreeOff k (.ofEntries (front ++ (k, a) :: back)) (.ofEntries (front ++ (k, b) :: back)) := by
  simp only [OrderedMap.ofEntries, List.foldl_append, List.foldl_cons]
  exact ((refl k _).insert_at a b).insertAll back

end AgreeOff

end TaintScan.OrderedMap
