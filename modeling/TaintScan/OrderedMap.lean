namespace TaintScan

structure OrderedMap (κ α : Type) where
  entries : List (κ × α)
  distinct : (entries.map Prod.fst).Nodup
deriving DecidableEq

namespace OrderedMap

variable {κ α : Type} [DecidableEq κ]

def empty : OrderedMap κ α := ⟨[], by simp⟩

instance : Inhabited (OrderedMap κ α) := ⟨empty⟩

def insertEntry (k : κ) (a : α) : List (κ × α) → List (κ × α)
  | [] => [(k, a)]
  | (j, b) :: rest => if j = k then (k, a) :: rest else (j, b) :: insertEntry k a rest

theorem mem_keys_insertEntry (k : κ) (a : α) (entries : List (κ × α)) (j : κ) :
    j ∈ (insertEntry k a entries).map Prod.fst ↔ j = k ∨ j ∈ entries.map Prod.fst := by
  induction entries with
  | nil => simp [insertEntry]
  | cons e rest ih =>
    rw [insertEntry]
    split
    · rename_i h
      simp [h]
    · rw [List.map_cons, List.mem_cons, ih, List.map_cons, List.mem_cons]
      exact ⟨fun h => h.elim (fun h => .inr (.inl h)) fun h => h.imp id .inr,
        fun h => h.elim (fun h => .inr (.inl h)) fun h => h.imp id .inr⟩

theorem nodup_keys_insertEntry (k : κ) (a : α) {entries : List (κ × α)}
    (h : (entries.map Prod.fst).Nodup) : ((insertEntry k a entries).map Prod.fst).Nodup := by
  induction entries with
  | nil => simp [insertEntry]
  | cons e rest ih =>
    simp only [List.map_cons, List.nodup_cons] at h
    rw [insertEntry]
    split
    · rename_i hk
      simpa [← hk] using h
    · rename_i hk
      simp only [List.map_cons, List.nodup_cons, mem_keys_insertEntry]
      exact ⟨fun hm => hm.elim hk h.1, ih h.2⟩

def insert (m : OrderedMap κ α) (k : κ) (a : α) : OrderedMap κ α :=
  ⟨insertEntry k a m.entries, nodup_keys_insertEntry k a m.distinct⟩

def get? (m : OrderedMap κ α) (k : κ) : Option α := m.entries.lookup k

def keys (m : OrderedMap κ α) : List κ := m.entries.map Prod.fst

def ofEntries (entries : List (κ × α)) : OrderedMap κ α :=
  entries.foldl (fun m e => m.insert e.1 e.2) empty

theorem get?_insert (m : OrderedMap κ α) (k j : κ) (a : α) :
    (m.insert k a).get? j = if j = k then some a else m.get? j := by
  obtain ⟨entries, h⟩ := m
  simp only [get?, insert]
  clear h
  induction entries with
  | nil =>
    by_cases h : j = k
    · simp [insertEntry, h]
    · simp [insertEntry, List.lookup_cons, h, beq_eq_false_iff_ne.mpr h]
  | cons e rest ih =>
    obtain ⟨i, b⟩ := e
    rw [insertEntry]
    by_cases hk : i = k
    · subst hk
      by_cases h : j = i
      · simp [h]
      · simp [List.lookup_cons, h, beq_eq_false_iff_ne.mpr h]
    · rw [if_neg hk]
      by_cases h : j = i
      · subst h
        simp [hk]
      · simpa [List.lookup_cons, beq_eq_false_iff_ne.mpr h] using ih

end OrderedMap

end TaintScan
