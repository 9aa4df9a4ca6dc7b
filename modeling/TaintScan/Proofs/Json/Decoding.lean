import TaintScan.Json.Decode
import TaintScan.Proofs.Json.Readback

namespace TaintScan.Json

variable {α β κ : Type}

/-- A decoder reads a value as what it was written from, as far as there is room for its nesting. -/
def Decoder.Reads (d : Decoder α) (v : Value) (a : α) : Prop :=
  ∀ room ≤ nestingLimit, d room v.tree = if v.depth ≤ room then .ok a else .error .malformed

namespace Decoder

variable {d : Decoder α} {v : Value} {a : α}

theorem Reads.ofText (reads : d.Reads v a) : Decoder.ofText d v.pretty =
    if v.depth ≤ nestingLimit then .ok a else .error .malformed := by
  rw [Decoder.ofText, readDocument_pretty, ofTree, reads nestingLimit (Nat.le_refl _)]
  by_cases fits : v.depth ≤ nestingLimit
  · simp [fits]
  · simp [fits]

theorem Reads.map (reads : d.Reads v a) (f : α → β) :
    Reads (fun room tree => (d room tree).map f) v (f a) := by
  intro room small
  simp only [reads room small]
  by_cases fits : v.depth ≤ room
  · simp [fits, Except.map]
  · simp [fits, Except.map]

theorem text_reads (s : String) : text.Reads (.string s) s := fun _ _ => rfl

theorem textAs_reads {read : String → Option α} {s : String} (known : read s = some a) :
    (textAs read).Reads (.string s) a := by
  intro room _
  simp [textAs, text, Value.tree, Value.depth, known, fitting]

theorem boolean_reads (b : Bool) : boolean.Reads (.bool b) b := fun _ _ => rfl

theorem choice_reads {table : List (String × α)} {name : String} (known : table.lookup name = some a) :
    (choice table).Reads (.string name) a := by
  intro room _
  simp [choice, named, Value.tree, Value.depth, known]

theorem integer?_ofInt {n : Int} (low : Int64.minValue.toInt ≤ n) (high : n < UInt64.size) :
    (Numeral.ofInt n).integer? = some n := by
  have least : Int64.minValue.toInt = -2 ^ 63 := rfl
  have power : Nat.pow 2 63 = 2 ^ 63 := rfl
  by_cases negative : n < 0
  · have inside : 0 < n.natAbs ∧ n.natAbs ≤ Nat.pow 2 63 := by omega
    have value : -(n.natAbs : Int) = n := by omega
    simp only [Numeral.integer?, Numeral.ofInt, negative, decide_true, List.isEmpty_nil,
      Option.isNone_none, Bool.and_self, if_true, if_pos inside, value]
  · have inside : n.natAbs < UInt64.size := by omega
    have value : (n.natAbs : Int) = n := by omega
    simp only [Numeral.integer?, Numeral.ofInt, negative, decide_false, List.isEmpty_nil,
      Option.isNone_none, Bool.and_self, Bool.false_eq_true, if_true, if_false, if_pos inside, value]

theorem integer_reads {low high n : Int} (above : low ≤ n) (below : n ≤ high)
    (least : Int64.minValue.toInt ≤ n) (most : n < UInt64.size) :
    (integer low high).Reads (.int n) n := by
  intro room _
  have inside : low ≤ n ∧ n ≤ high := ⟨above, below⟩
  simp only [integer, Value.int, Value.tree, integer?_ofInt least most, if_pos inside]
  rfl

theorem minValue_le_natCast (n : Nat) : Int64.minValue.toInt ≤ n :=
  Int.le_trans (by decide) (Int.natCast_nonneg n)

theorem uint32_reads (n : UInt32) : uint32.Reads (.nat n.toNat) n := by
  have small : n.toNat < UInt32.size := n.toNat_lt
  have wider : UInt32.size ≤ UInt64.size := by decide
  have read : (integer 0 (UInt32.size - 1 : Nat)).Reads (.nat n.toNat) n.toNat :=
    integer_reads (by omega) (by omega) (minValue_le_natCast _) (by omega)
  have back : UInt32.ofNat (n.toNat : Int).toNat = n := by simp
  have mapped := read.map fun i => UInt32.ofNat i.toNat
  rwa [back] at mapped

theorem uint64_reads (n : UInt64) : uint64.Reads (.nat n.toNat) n := by
  have small : n.toNat < UInt64.size := n.toNat_lt
  have read : (integer 0 (UInt64.size - 1 : Nat)).Reads (.nat n.toNat) n.toNat :=
    integer_reads (by omega) (by omega) (minValue_le_natCast _) (by omega)
  have back : UInt64.ofNat (n.toNat : Int).toNat = n := by simp
  have mapped := read.map fun i => UInt64.ofNat i.toNat
  rwa [back] at mapped

theorem int64_reads (n : Int64) : int64.Reads (.int n.toInt) n := by
  have most : n.toInt < 2 ^ 63 := n.toInt_lt
  have greatest : Int64.maxValue.toInt = 2 ^ 63 - 1 := rfl
  have wider : (2 : Int) ^ 63 ≤ UInt64.size := by decide
  have read : (integer Int64.minValue.toInt Int64.maxValue.toInt).Reads (.int n.toInt) n.toInt :=
    integer_reads n.minValue_le_toInt (by omega) n.minValue_le_toInt (by omega)
  have mapped := read.map Int64.ofInt
  rwa [Int64.ofInt_toInt] at mapped

theorem optional_reads (reads : d.Reads v a) (given : v ≠ .null) :
    (optional d).Reads v (some a) := by
  intro room small
  have mapped := reads.map some room small
  cases v
  case null => exact absurd rfl given
  all_goals exact mapped

theorem items_reads {f : α → Value} {room : Nat} (small : room ≤ nestingLimit) : {as : List α} →
    (∀ a ∈ as, d.Reads (f a) a) → items d room none (Value.trees (as.map f)) =
      if Value.depthItems (as.map f) ≤ room then .ok as else .error .malformed
  | [], _ => by simp [items, Value.trees, Value.depthItems]
  | a :: rest, reads => by
    have first := reads a List.mem_cons_self room small
    have others := items_reads small fun b member => reads b (List.mem_cons_of_mem a member)
    rw [List.map_cons, Value.trees, items, first, others, Value.depthItems]
    simp only [Nat.max_le]
    by_cases front : (f a).depth ≤ room
    · by_cases back : Value.depthItems (rest.map f) ≤ room
      · simp [front, back, Except.map]
      · simp [front, back, Except.map]
    · simp [front]

theorem list_reads {f : α → Value} {as : List α} (reads : ∀ a ∈ as, d.Reads (f a) a) :
    (list d).Reads (.array (as.map f)) as := by
  intro room small
  cases room with
  | zero => simp [list, Value.tree, Value.depth]
  | succ room =>
    have all := items_reads (Nat.le_of_succ_le small) reads
    simp only [list, Value.tree, Value.depth, Nat.add_le_add_iff_right]
    exact all

theorem entries_reads {key : String → Option κ} {name : κ → String} {f : α → Value} {room : Nat}
    (small : room ≤ nestingLimit) (known : ∀ k, key (name k) = some k) : {es : List (κ × α)} →
    (∀ e ∈ es, d.Reads (f e.2) e.2) →
    entries key d room none (Value.memberTrees (es.map fun e => (name e.1, f e.2))) =
      if Value.depthMembers (es.map fun e => (name e.1, f e.2)) ≤ room then .ok es
      else .error .malformed
  | [], _ => by simp [entries, Value.memberTrees, Value.depthMembers]
  | (k, a) :: rest, reads => by
    have first := reads (k, a) List.mem_cons_self room small
    have others := entries_reads small known fun e member => reads e (List.mem_cons_of_mem _ member)
    rw [List.map_cons, Value.memberTrees, entries, Value.depthMembers]
    simp only [known, first, others, Nat.max_le]
    by_cases front : (f a).depth ≤ room
    · by_cases back : Value.depthMembers (rest.map fun e => (name e.1, f e.2)) ≤ room
      · simp [front, back, Except.map]
      · simp [front, back, Except.map]
    · simp [front]

theorem table_reads {key : String → Option κ} {name : κ → String} {f : α → Value}
    (known : ∀ k, key (name k) = some k) {es : List (κ × α)}
    (reads : ∀ e ∈ es, d.Reads (f e.2) e.2) :
    (table key d).Reads (.object (es.map fun e => (name e.1, f e.2))) es := by
  intro room small
  cases room with
  | zero => simp [table, Value.tree, Value.depth]
  | succ room =>
    have all := entries_reads (Nat.le_of_succ_le small) known reads
    simp only [table, Value.tree, Value.depth, Nat.add_le_add_iff_right]
    exact all

end Decoder

namespace Reading

/-- A reading gives a value if something fits, and otherwise meets a malformed place. -/
structure Gives (r : Reading α) (fits : Prop) (a : α) : Prop where
  given : fits → r = .ok a
  malformed : ¬fits → ∃ place, r = .fail place .malformed

namespace Gives

variable {p q : Prop} {r : Reading α} {a : α}

theorem congr (gives : r.Gives p a) (same : p ↔ q) : r.Gives q a :=
  ⟨fun fits => gives.given (same.mpr fits), fun not => gives.malformed fun fits => not (same.mp fits)⟩

theorem map (gives : r.Gives p a) (f : α → β) : Gives (f <$> r) p (f a) := by
  constructor
  · intro fits
    rw [gives.given fits]
    rfl
  · intro not
    obtain ⟨place, met⟩ := gives.malformed not
    rw [met]
    exact ⟨place, rfl⟩

theorem seq {f : Reading (α → β)} {g : α → β} (front : f.Gives p g) (back : r.Gives q a) :
    Gives (f <*> r) (p ∧ q) (g a) := by
  constructor
  · rintro ⟨first, second⟩
    rw [front.given first, back.given second]
    rfl
  · intro not
    by_cases first : p
    · obtain ⟨place, met⟩ := back.malformed fun second => not ⟨first, second⟩
      rw [front.given first, met]
      exact ⟨place, rfl⟩
    · obtain ⟨place, met⟩ := front.malformed first
      by_cases second : q
      · rw [met, back.given second]
        exact ⟨place, rfl⟩
      · obtain ⟨other, behind⟩ := back.malformed second
        rw [met, behind]
        by_cases before : other < place
        · exact ⟨other, congrArg Except.error (if_pos before)⟩
        · exact ⟨place, congrArg Except.error (if_neg before)⟩

end Gives

end Reading

namespace Value

/-- The members of a record: its fields in order, with those left out that have no value. -/
def present (slots : List (String × Option Value)) : List (String × Value) :=
  slots.filterMap fun s => s.2.map (s.1, ·)

@[simp]
theorem present_nil : present [] = [] := rfl

@[simp]
theorem present_some (name : String) (v : Value) (slots : List (String × Option Value)) :
    present ((name, some v) :: slots) = (name, v) :: present slots := rfl

@[simp]
theorem present_optional (name : String) (f : α → Value) (o : Option α)
    (slots : List (String × Option Value)) :
    present ((name, o.map f) :: slots) = optionalMember name f o ++ present slots := by
  cases o <;> rfl

def ofList? (f : α → Value) : List α → Option Value
  | [] => none
  | items => some (.array (items.map f))

@[simp]
theorem present_list (name : String) (f : α → Value) (items : List α)
    (slots : List (String × Option Value)) :
    present ((name, ofList? f items) :: slots) = listMember name f items ++ present slots := by
  cases items <;> rfl

theorem depthMembers_le {members : List (String × Value)} {n : Nat} :
    depthMembers members ≤ n ↔ ∀ m ∈ members, m.2.depth ≤ n := by
  induction members with
  | nil => simp [depthMembers]
  | cons m rest ih => rw [depthMembers, Nat.max_le, ih, List.forall_mem_cons]

theorem depthItems_le {items : List Value} {n : Nat} :
    depthItems items ≤ n ↔ ∀ v ∈ items, v.depth ≤ n := by
  induction items with
  | nil => simp [depthItems]
  | cons v rest ih => rw [depthItems, Nat.max_le, ih, List.forall_mem_cons]

@[simp]
theorem depth_string (s : String) : (string s).depth = 0 := rfl

@[simp]
theorem depth_bool (b : Bool) : (bool b).depth = 0 := rfl

@[simp]
theorem depth_int (n : Int) : (int n).depth = 0 := rfl

@[simp]
theorem depth_nat (n : Nat) : (nat n).depth = 0 := rfl

@[simp]
theorem depth_array_le {n : Nat} {f : α → Value} {items : List α} :
    (array (items.map f)).depth ≤ n + 1 ↔ ∀ a ∈ items, (f a).depth ≤ n := by
  rw [depth, Nat.add_le_add_iff_right, depthItems_le]
  simp

def Fits (n : Nat) (o : Option Value) : Prop := ∀ v ∈ o, v.depth ≤ n

@[simp]
theorem fits_some {n : Nat} {v : Value} : Fits n (some v) ↔ v.depth ≤ n := by simp [Fits]

@[simp]
theorem fits_map {n : Nat} {f : α → Value} {o : Option α} :
    Fits n (o.map f) ↔ ∀ a ∈ o, (f a).depth ≤ n := by simp [Fits]

@[simp]
theorem fits_list {n : Nat} {f : α → Value} {items : List α} :
    Fits (n + 1) (ofList? f items) ↔ ∀ a ∈ items, (f a).depth ≤ n := by
  cases items with
  | nil => simp [Fits, ofList?]
  | cons first rest => exact fits_some.trans depth_array_le

theorem depth_lt_of_fits {n : Nat} {f : α → Value} {items : List α} {a : α} (member : a ∈ items)
    (fits : Fits n (ofList? f items)) : (f a).depth < n := by
  cases n with
  | succ n => exact Nat.lt_succ_of_le (fits_list.mp fits a member)
  | zero =>
    cases items with
    | nil => cases member
    | cons first rest => simp [Fits, ofList?, depth] at fits

theorem depthMembers_present_le {slots : List (String × Option Value)} {n : Nat} :
    depthMembers (present slots) ≤ n ↔ ∀ s ∈ slots, Fits n s.2 := by
  rw [depthMembers_le]
  constructor
  · intro all s member v known
    exact all (s.1, v) (List.mem_filterMap.mpr ⟨s, member, by simp [Option.mem_def.mp known]⟩)
  · intro all m member
    obtain ⟨s, inside, shown⟩ := List.mem_filterMap.mp member
    obtain ⟨v, known, rfl⟩ := Option.map_eq_some_iff.mp shown
    exact all s inside v known

theorem depth_present_le {slots : List (String × Option Value)} {n : Nat} :
    (object (present slots)).depth ≤ n + 1 ↔ ∀ s ∈ slots, Fits n s.2 := by
  rw [depth, Nat.add_le_add_iff_right, depthMembers_present_le]

theorem names_present (slots : List (String × Option Value)) :
    ((present slots).map Prod.fst).Sublist (slots.map Prod.fst) := by
  induction slots with
  | nil => exact .slnil
  | cons s rest ih =>
    obtain ⟨name, _ | v⟩ := s
    · exact ih.cons name
    · exact ih.cons_cons name

theorem lookup_present {slots : List (String × Option Value)}
    (distinct : (slots.map Prod.fst).Nodup) {name : String} {o : Option Value}
    (member : (name, o) ∈ slots) : (present slots).lookup name = o := by
  induction slots with
  | nil => cases member
  | cons s rest ih =>
    rw [List.map_cons, List.nodup_cons] at distinct
    obtain ⟨fresh, distinct⟩ := distinct
    rcases List.mem_cons.mp member with rfl | behind
    · cases o with
      | some v => simp
      | none =>
        refine List.lookup_eq_none_iff.mpr fun m inside => ?_
        have listed : m.1 ∈ rest.map Prod.fst :=
          (names_present rest).subset (List.mem_map_of_mem inside)
        simp only [bne_iff_ne]
        rintro rfl
        exact fresh listed
    · have other : name ≠ s.1 := by
        rintro rfl
        exact fresh (List.mem_map.mpr ⟨_, behind, rfl⟩)
      obtain ⟨first, _ | v⟩ := s
      · exact ih distinct behind
      · rw [present_some, List.lookup_cons, beq_eq_false_iff_ne.mpr other]
        exact ih distinct behind

end Value

open Value

namespace Fields

theorem findMember_memberTrees (name : String) (members : List (String × Value)) (place : Nat) :
    (findMember name place (memberTrees members)).map Prod.snd = (members.lookup name).map tree := by
  induction members generalizing place with
  | nil => rfl
  | cons m rest ih =>
    rw [memberTrees, findMember, List.lookup_cons]
    by_cases same : m.1 = name
    · simp [same]
    · simp [same, beq_eq_false_iff_ne.mpr (Ne.symm same), ih]

theorem objectFlaw_memberTrees {names : List String} {members : List (String × Value)}
    (known : ∀ m ∈ members, m.1 ∈ names) (distinct : (members.map Prod.fst).Nodup) (place : Nat)
    {seen : List String} (fresh : ∀ m ∈ members, m.1 ∉ seen) :
    objectFlaw names none place seen (memberTrees members) = none := by
  induction members generalizing place seen with
  | nil => rfl
  | cons m rest ih =>
    rw [List.map_cons, List.nodup_cons] at distinct
    have here : names.contains m.1 = true := List.contains_iff_mem.mpr (known m List.mem_cons_self)
    have first : seen.contains m.1 = false := by simpa using fresh m List.mem_cons_self
    rw [memberTrees, objectFlaw]
    simp only [here, first, if_true, Bool.false_eq_true, if_false]
    refine ih (fun n inside => known n (List.mem_cons_of_mem _ inside)) distinct.2 _ ?_
    intro n inside listed
    rcases List.mem_cons.mp listed with same | before
    · exact distinct.1 (same ▸ List.mem_map_of_mem inside)
    · exact fresh n (List.mem_cons_of_mem _ inside) before

structure Hold (fields : Fields) (slots : List (String × Option Value)) : Prop where
  small : fields.room ≤ nestingLimit
  find : ∀ s ∈ slots, (fields.find s.1).map Prod.snd = s.2.map tree

namespace Hold

variable {fields : Fields} {slots : List (String × Option Value)} {d : Decoder α} {v : Value} {a : α}

theorem get (hold : fields.Hold slots) (name : String) (member : (name, some v) ∈ slots) (reads : d.Reads v a)
    (default : Option α) : (fields.get name d default).Gives (Fits fields.room (some v)) a := by
  obtain ⟨⟨place, _⟩, found, rfl⟩ := Option.map_eq_some_iff.mp (hold.find _ member)
  have read := reads fields.room hold.small
  constructor
  · intro fits
    rw [if_pos (fits v rfl)] at read
    simp only [Fields.get, found, read]
  · intro deeper
    rw [if_neg fun fits => deeper fun _ same => by cases same; exact fits] at read
    exact ⟨place, by simp only [Fields.get, found, read]⟩

theorem need (hold : fields.Hold slots) (name : String) (member : (name, some v) ∈ slots)
    (reads : d.Reads v a) : (fields.need name d).Gives (Fits fields.room (some v)) a :=
  hold.get name member reads none

theorem absent (hold : fields.Hold slots) (name : String) (member : (name, none) ∈ slots) (default : α) :
    (fields.get name d (some default)).Gives (Fits fields.room none) default := by
  have missing : fields.find name = none := Option.map_eq_none_iff.mp (hold.find _ member)
  constructor
  · intro _
    simp only [Fields.get, missing]
  · intro deeper
    exact absurd (fun _ none => nomatch none) deeper

theorem find? (hold : fields.Hold slots) (name : String) (o : Option α) {f : α → Value}
    (member : (name, o.map f) ∈ slots) (reads : ∀ a, d.Reads (f a) a) (given : ∀ a, f a ≠ .null) :
    (fields.find? name d).Gives (Fits fields.room (o.map f)) o := by
  cases o with
  | none => exact hold.absent name member none
  | some a => exact hold.get name member (Decoder.optional_reads (reads a) (given a)) (some none)

theorem list (hold : fields.Hold slots) (name : String) (items : List α) {f : α → Value}
    (member : (name, ofList? f items) ∈ slots) (reads : ∀ a ∈ items, d.Reads (f a) a) :
    (fields.list name d).Gives (Fits fields.room (ofList? f items)) items := by
  cases items with
  | nil => exact hold.absent name member []
  | cons first rest => exact hold.get name member (Decoder.list_reads reads) (some [])

end Hold

theorem hold_ofObject {slots : List (String × Option Value)} (distinct : (slots.map Prod.fst).Nodup)
    {room : Nat} (small : room ≤ nestingLimit) (names : List String) :
    (ofObject names room (memberTrees (present slots)) none).Hold slots where
  small := small
  find s member := by
    have found := findMember_memberTrees s.1 (present slots) 0
    rw [lookup_present distinct member] at found
    exact found

theorem flaw_ofObject {slots : List (String × Option Value)} (distinct : (slots.map Prod.fst).Nodup)
    (room : Nat) :
    (ofObject (slots.map Prod.fst) room (memberTrees (present slots)) none).flaw = none := by
  have names := names_present slots
  refine objectFlaw_memberTrees (fun m member => ?_) (distinct.sublist names) 0 (by simp)
  exact names.subset (List.mem_map_of_mem member)

end Fields

theorem Decoder.record_reads (slots : List (String × Option Value))
    (distinct : (slots.map Prod.fst).Nodup) {read : Fields → Reading α} {a : α}
    (gives : ∀ fields : Fields, fields.Hold slots →
      (read fields).Gives (∀ s ∈ slots, Fits fields.room s.2) a) :
    (record (slots.map Prod.fst) read).Reads (.object (present slots)) a := by
  intro room small
  cases room with
  | zero => simp [record, tree, depth]
  | succ room =>
    have flaw := Fields.flaw_ofObject distinct room
    have reading := gives _ (Fields.hold_ofObject distinct (Nat.le_of_succ_le small)
      (slots.map Prod.fst))
    have bound : depth (.object (present slots)) ≤ room + 1 ↔ ∀ s ∈ slots, Fits room s.2 :=
      depth_present_le
    simp only [record, tree, Fields.conclude, flaw]
    by_cases fits : ∀ s ∈ slots, Fits room s.2
    · rw [if_pos (bound.mpr fits), reading.given fits]
      rfl
    · obtain ⟨place, met⟩ := reading.malformed fits
      rw [if_neg fun deep => fits (bound.mp deep), met]
      rfl

end TaintScan.Json
