import Mathlib.Data.List.TakeWhile
import TaintScan.Markup.Attributes
import TaintScan.Proofs.Name
import TaintScan.Proofs.Outcome

namespace TaintScan.Markup

def readEach (lenient : Bool) (p : Place) : Except AttributeFault (List RawAttribute) :=
  match _key : p.skipSpace.text with
  | [] => .ok []
  | c :: rest =>
    let key := c :: rest.takeWhile fun c => !endsKey c
    let hasValue := (behindKey p).text.head? == some '='
    if !hasValue && !lenient then .error (.missingEquals (behindKey p).position)
    else if hasValue then
      match _value : readValue lenient (behindKey p).tail.skipSpace with
      | .error fault => .error fault
      | .ok (value, after) => (readEach lenient after).map (⟨key, value⟩ :: ·)
    else (readEach lenient (behindKey p)).map (⟨key, []⟩ :: ·)
termination_by p.text.length
decreasing_by
  · exact Nat.lt_of_le_of_lt (length_readValue ‹_›)
      (Nat.lt_of_le_of_lt (Place.length_skip _ _)
        (Nat.lt_of_le_of_lt (Place.length_tail _) (length_behindKey ‹_›)))
  · exact length_behindKey ‹_›

def Tag.eachAttribute (lenient : Bool) (t : Tag) : Except AttributeFault (List RawAttribute) :=
  readEach lenient ⟨Text.byteCount t.name, t.rest⟩

variable {lenient : Bool} {seen : List (List Char × Nat)} {p : Place} {as : List RawAttribute}

theorem readEach_nil (blank : p.skipSpace.text = []) : readEach lenient p = .ok [] := by
  rw [readEach]
  split
  · rfl
  · rename_i more
    rw [blank] at more
    cases more

theorem readEach_cons {c : Char} {rest : List Char} (begins : p.skipSpace.text = c :: rest) :
    readEach lenient p =
      if ((behindKey p).text.head? == some '=') = true then
        readValue lenient (behindKey p).tail.skipSpace >>= fun read =>
          (readEach lenient read.2).map (⟨c :: rest.takeWhile fun c => !endsKey c, read.1⟩ :: ·)
      else if lenient = true then
        (readEach lenient (behindKey p)).map (⟨c :: rest.takeWhile fun c => !endsKey c, []⟩ :: ·)
      else .error (.missingEquals (behindKey p).position) := by
  rw [readEach]
  split
  · rename_i blank
    rw [begins] at blank
    cases blank
  · rename_i same
    rw [begins] at same
    cases same
    by_cases valued : ((behindKey p).text.head? == some '=') = true
    · have taken : ¬(!((behindKey p).text.head? == some '=') && !lenient) = true := by simp [valued]
      simp only [if_neg taken, if_pos valued]
      split
      · rename_i broken
        rw [broken]
        rfl
      · rename_i read
        rw [read]
        rfl
    · cases lenient with
      | false => simp [valued]
      | true => simp [valued]

theorem exists_key_of_readEach {c : Char} {rest : List Char} (begins : p.skipSpace.text = c :: rest)
    (read : readEach lenient p = .ok as) :
    ∃ value bs, as = ⟨c :: rest.takeWhile fun c => !endsKey c, value⟩ :: bs := by
  rw [readEach_cons begins] at read
  split at read
  · obtain ⟨found, -, more⟩ := Outcome.bind_eq_ok.mp read
    obtain ⟨bs, -, rfl⟩ := Outcome.map_eq_ok.mp more
    exact ⟨found.1, bs, rfl⟩
  · split at read
    · obtain ⟨bs, -, rfl⟩ := Outcome.map_eq_ok.mp read
      exact ⟨[], bs, rfl⟩
    · cases read

theorem lookup_cons_eq_none {key other : List Char} {position : Nat} :
    ((key, position) :: seen).lookup other = none ↔ other ≠ key ∧ seen.lookup other = none := by
  by_cases same : other = key
  · simp [same]
  · simp [List.lookup_cons, beq_eq_false_iff_ne.mpr same, same]

theorem push_eq_ok {key value : List Char} {position : Nat} {q : Place}
    (fresh : seen.lookup key = none)
    (ih : ∀ {bs}, readAttributes lenient ((key, position) :: seen) q = .ok bs ↔
      readEach lenient q = .ok bs ∧ (bs.map RawAttribute.key).Nodup ∧
        ∀ b ∈ bs, ((key, position) :: seen).lookup b.key = none) :
    (readAttributes lenient ((key, position) :: seen) q).map (⟨key, value⟩ :: ·) = .ok as ↔
      (readEach lenient q).map (⟨key, value⟩ :: ·) = .ok as ∧ (as.map RawAttribute.key).Nodup ∧
        ∀ a ∈ as, seen.lookup a.key = none := by
  simp only [Outcome.map_eq_ok, ih, lookup_cons_eq_none]
  constructor
  · rintro ⟨bs, ⟨read, distinct, unseen⟩, rfl⟩
    refine ⟨⟨bs, read, rfl⟩, List.nodup_cons.mpr ⟨fun member => ?_, distinct⟩,
      List.forall_mem_cons.mpr ⟨fresh, fun b inside => (unseen b inside).2⟩⟩
    obtain ⟨b, inside, same⟩ := List.mem_map.mp member
    exact (unseen b inside).1 same
  · rintro ⟨⟨bs, read, rfl⟩, distinct, unseen⟩
    obtain ⟨new, distinct⟩ := List.nodup_cons.mp distinct
    refine ⟨bs, ⟨read, distinct, fun b inside => ⟨fun same => new ?_, ?_⟩⟩, rfl⟩
    · exact List.mem_map.mpr ⟨b, inside, same⟩
    · exact unseen b (List.mem_cons_of_mem _ inside)

theorem readAttributes_eq_ok : readAttributes lenient seen p = .ok as ↔
    readEach lenient p = .ok as ∧ (as.map RawAttribute.key).Nodup ∧
      ∀ a ∈ as, seen.lookup a.key = none := by
  fun_induction readAttributes lenient seen p generalizing as with
  | case1 seen p blank =>
    rw [readEach_nil blank]
    constructor
    · intro done
      cases done
      exact ⟨rfl, List.nodup_nil, nofun⟩
    · exact And.left
  | case2 seen p c rest begins hasValue =>
    rename_i refused
    obtain ⟨bare, strict⟩ : hasValue = false ∧ lenient = false := by simpa using refused
    refine ⟨nofun, fun ⟨read, _⟩ => ?_⟩
    rw [readEach_cons begins, if_neg (by simp [hasValue, bare]), if_neg (by simp [strict])] at read
    cases read
  | case3 seen p c rest begins key position hasValue allowed previous =>
    -- Refused for a key seen before. The other reading begins with this key too.
    rename_i known
    refine ⟨nofun, fun ⟨read, _, unseen⟩ => ?_⟩
    obtain ⟨value, bs, rfl⟩ := exists_key_of_readEach begins read
    rw [show seen.lookup key = none from unseen _ List.mem_cons_self] at known
    cases known
  | case4 seen p c rest begins key hasValue allowed fresh valued fault =>
    rename_i broken
    refine ⟨nofun, fun ⟨read, _⟩ => ?_⟩
    rw [readEach_cons begins, if_pos valued, broken] at read
    cases read
  | case5 seen p c rest begins key position hasValue allowed fresh valued value after read =>
    rename_i ih
    rw [readEach_cons begins, if_pos valued, read]
    exact push_eq_ok fresh ih
  | case6 seen p c rest begins key position hasValue allowed fresh bare =>
    rename_i ih
    rw [readEach_cons begins, if_neg bare, if_pos (by simpa [bare] using allowed)]
    exact push_eq_ok fresh ih

theorem attributes_eq_ok {tag : Tag} : tag.attributes lenient = .ok as ↔
    tag.eachAttribute lenient = .ok as ∧ (as.map RawAttribute.key).Nodup := by
  rw [Tag.attributes, Tag.eachAttribute, readAttributes_eq_ok]
  simp

namespace Place

variable {p : Place}

theorem text_skip (kind : Char → Bool) : (p.skip kind).text = p.text.dropWhile kind := rfl

theorem text_tail {c : Char} {rest : List Char} (begins : p.text = c :: rest) : p.tail.text = rest := by
  unfold tail
  split
  · rename_i blank
    rw [begins] at blank
    cases blank
  · rename_i same
    rw [begins] at same
    cases same
    rfl

end Place

namespace RawAttribute

def written (a : RawAttribute) : List Char := ' ' :: a.key ++ '=' :: '"' :: a.value ++ ['"']

structure Quotable (a : RawAttribute) : Prop where
  key : Name.Solid a.key
  value : ∀ c ∈ a.value, c ≠ '"'

end RawAttribute

variable (lenient)

theorem isSpace_of_isNameChar {c : Char} (h : Name.isNameChar c = true) : isSpace c = false := by
  have blank := Name.ne_of_isNameChar (d := ' ') h (by decide)
  have tab := Name.ne_of_isNameChar (d := '\t') h (by decide)
  have line := Name.ne_of_isNameChar (d := '\n') h (by decide)
  have back := Name.ne_of_isNameChar (d := '\r') h (by decide)
  simp [isSpace, blank, tab, line, back]

theorem endsKey_of_isNameChar {c : Char} (h : Name.isNameChar c = true) : endsKey c = false := by
  simp [endsKey, Name.ne_of_isNameChar (d := '=') h (by decide), isSpace_of_isNameChar h]

theorem readValue_quoted {value more : List Char} (quoted : ∀ c ∈ value, c ≠ '"')
    (begins : p.text = '"' :: (value ++ '"' :: more)) :
    ∃ after, readValue lenient p = .ok (value, after) ∧ after.text = more := by
  have goesOn : ∀ c ∈ value, (c != '"') = true := fun c inside => by simpa using quoted c inside
  have behind : (p.tail.skip (· != '"')).text = '"' :: more := by
    rw [Place.text_skip, Place.text_tail begins, List.dropWhile_append_of_pos goesOn,
      List.dropWhile_cons_of_neg (by decide)]
  have front : (value ++ '"' :: more).takeWhile (· != '"') = value := by
    rw [List.takeWhile_append_of_pos goesOn, List.takeWhile_cons_of_neg (by decide), List.append_nil]
  refine ⟨(p.tail.skip (· != '"')).tail, ?_, Place.text_tail behind⟩
  unfold readValue
  split
  · rename_i blank
    rw [begins] at blank
    cases blank
  · rename_i same
    rw [begins] at same
    cases same
    simp [behind, front]

theorem readEach_written {a : RawAttribute} (quotable : a.Quotable) {more : List Char}
    (begins : p.text = a.written ++ more) :
    ∃ after, readEach lenient p = (readEach lenient after).map (a :: ·) ∧ after.text = more := by
  obtain ⟨key, value⟩ := a
  obtain ⟨c, cs, rfl⟩ := List.exists_cons_of_ne_nil quotable.key.nonempty
  obtain ⟨first, others⟩ := List.forall_mem_cons.mp quotable.key.chars
  have goesOn : ∀ d ∈ cs, (!endsKey d) = true := fun d inside => by
    rw [endsKey_of_isNameChar (others d inside)]
    rfl
  have solid : isSpace c = false := isSpace_of_isNameChar first
  have start : p.skipSpace.text = c :: (cs ++ '=' :: '"' :: (value ++ '"' :: more)) := by
    have split : RawAttribute.written ⟨c :: cs, value⟩ ++ more =
        ' ' :: c :: (cs ++ '=' :: '"' :: (value ++ '"' :: more)) := by simp [RawAttribute.written]
    rw [Place.skipSpace, Place.text_skip, begins, split, List.dropWhile_cons_of_pos (by decide),
      List.dropWhile_cons_of_neg (by simp [solid])]
  have front : (cs ++ '=' :: '"' :: (value ++ '"' :: more)).takeWhile (fun d => !endsKey d) = cs := by
    rw [List.takeWhile_append_of_pos goesOn, List.takeWhile_cons_of_neg (by decide), List.append_nil]
  have equals : (behindKey p).text = '=' :: '"' :: (value ++ '"' :: more) := by
    rw [behindKey, Place.skipSpace, Place.text_skip, Place.text_skip, Place.text_tail start,
      List.dropWhile_append_of_pos goesOn, List.dropWhile_cons_of_neg (by decide),
      List.dropWhile_cons_of_neg (by decide)]
  have opens : (behindKey p).tail.skipSpace.text = '"' :: (value ++ '"' :: more) := by
    rw [Place.skipSpace, Place.text_skip, Place.text_tail equals, List.dropWhile_cons_of_neg (by decide)]
  obtain ⟨after, read, rest⟩ := readValue_quoted lenient quotable.value opens
  refine ⟨after, ?_, rest⟩
  rw [readEach_cons start, if_pos (by rw [equals]; rfl), read, front]
  rfl

theorem readEach_flatMap_written (quotable : ∀ a ∈ as, a.Quotable)
    (begins : p.text = as.flatMap RawAttribute.written) : readEach lenient p = .ok as := by
  induction as generalizing p with
  | nil =>
    have blank : p.skipSpace.text = [] := by
      rw [Place.skipSpace, Place.text_skip, begins]
      rfl
    exact readEach_nil blank
  | cons a as ih =>
    obtain ⟨this, others⟩ := List.forall_mem_cons.mp quotable
    rw [List.flatMap_cons] at begins
    obtain ⟨after, read, rest⟩ := readEach_written lenient this begins
    rw [read, ih others rest]
    rfl

end TaintScan.Markup
