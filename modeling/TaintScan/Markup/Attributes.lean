import TaintScan.Markup.Event

namespace TaintScan.Markup

structure RawAttribute where
  key : List Char
  value : List Char
deriving DecidableEq

structure Place where
  position : Nat
  text : List Char

namespace Place

def finish (p : Place) : Nat := p.position + Text.byteCount p.text

def skip (p : Place) (kind : Char → Bool) : Place :=
  ⟨p.position + Text.byteCount (p.text.takeWhile kind), p.text.dropWhile kind⟩

def skipSpace (p : Place) : Place := p.skip isSpace

def tail (p : Place) : Place :=
  match p.text with
  | [] => p
  | c :: rest => ⟨p.position + c.utf8Size, rest⟩

theorem length_skip (p : Place) (kind : Char → Bool) : (p.skip kind).text.length ≤ p.text.length :=
  (List.dropWhile_suffix kind).length_le

theorem length_tail (p : Place) : p.tail.text.length ≤ p.text.length := by
  unfold tail
  split <;> simp_all

end Place

def endsKey (c : Char) : Bool := c == '=' || isSpace c

def readValue (lenient : Bool) (p : Place) : Except AttributeFault (List Char × Place) :=
  match p.text with
  | [] => .error (.missingValue p.position)
  | c :: rest =>
    if c == '"' || c == '\x27' then
      if (p.tail.skip (· != c)).text.isEmpty then .error (.missingQuote p.finish c)
      else .ok (rest.takeWhile (· != c), (p.tail.skip (· != c)).tail)
    else if lenient then
      .ok (p.text.takeWhile fun c => !isSpace c, p.skip fun c => !isSpace c)
    else .error (.unquotedValue p.position)

theorem length_readValue {lenient : Bool} {p q : Place} {value : List Char}
    (h : readValue lenient p = .ok (value, q)) : q.text.length ≤ p.text.length := by
  unfold readValue at h
  split at h
  · simp at h
  · split at h
    · split at h
      · simp at h
      · simp only [Except.ok.injEq, Prod.mk.injEq] at h
        rw [← h.2]
        exact Nat.le_trans (Place.length_tail _)
          (Nat.le_trans (Place.length_skip _ _) (Place.length_tail _))
    · split at h
      · simp only [Except.ok.injEq, Prod.mk.injEq] at h
        rw [← h.2]
        exact Place.length_skip _ _
      · simp at h

/-- The place behind the key that begins at or after a place, and behind the blanks that follow it.
The first character of a key may be anything but a blank. -/
def behindKey (p : Place) : Place := (p.skipSpace.tail.skip fun c => !endsKey c).skipSpace

theorem length_behindKey {p : Place} {c : Char} {rest : List Char}
    (h : p.skipSpace.text = c :: rest) : (behindKey p).text.length < p.text.length := by
  have start_le : p.skipSpace.text.length ≤ p.text.length := Place.length_skip _ _
  have tail_lt : p.skipSpace.tail.text.length < p.skipSpace.text.length := by
    unfold Place.tail
    split <;> simp_all
  have behind_le : (behindKey p).text.length ≤ p.skipSpace.tail.text.length :=
    Nat.le_trans (Place.length_skip _ _) (Place.length_skip _ _)
  omega

def readAttributes (lenient : Bool) (seen : List (List Char × Nat)) (p : Place) :
    Except AttributeFault (List RawAttribute) :=
  match _key : p.skipSpace.text with
  | [] => .ok []
  | c :: rest =>
    let key := c :: rest.takeWhile fun c => !endsKey c
    let position := p.skipSpace.position
    let hasValue := (behindKey p).text.head? == some '='
    if !hasValue && !lenient then .error (.missingEquals (behindKey p).position)
    else
      match seen.lookup key with
      | some previous => .error (.duplicated position previous)
      | none =>
        if hasValue then
          match _value : readValue lenient (behindKey p).tail.skipSpace with
          | .error fault => .error fault
          | .ok (value, after) =>
            (readAttributes lenient ((key, position) :: seen) after).map (⟨key, value⟩ :: ·)
        else
          (readAttributes lenient ((key, position) :: seen) (behindKey p)).map (⟨key, []⟩ :: ·)
termination_by p.text.length
decreasing_by
  · exact Nat.lt_of_le_of_lt (length_readValue ‹_›)
      (Nat.lt_of_le_of_lt (Place.length_skip _ _)
        (Nat.lt_of_le_of_lt (Place.length_tail _) (length_behindKey ‹_›)))
  · exact length_behindKey ‹_›

def Tag.attributes (lenient : Bool) (t : Tag) : Except AttributeFault (List RawAttribute) :=
  readAttributes lenient [] ⟨Text.byteCount t.name, t.rest⟩

end TaintScan.Markup
