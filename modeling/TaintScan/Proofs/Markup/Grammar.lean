import TaintScan.Proofs.Markup.Entity
import TaintScan.Proofs.Markup.Tag

namespace TaintScan.Markup

def Escaped : List Char → Prop
  | [] => True
  | c :: rest => c ≠ '<' ∧
      (c = '&' → ∃ name behind, rest = name ++ ';' :: behind ∧ (reference? name).isSome = true) ∧
      Escaped rest

def RawAttribute.name (a : RawAttribute) : String := String.ofList a.key

structure RawAttribute.Proper (a : RawAttribute) : Prop where
  key : Name.isQualified a.key = true
  value : Escaped a.value
  unquoted : ∀ c ∈ a.value, c ≠ '"'

mutual

/-- One element, and the names of the attributes of each tag that opens an element in it. -/
inductive IsElement : List (List String) → List Char → Prop
  | alone {name : List Char} {as : List RawAttribute} (named : Name.isQualified name = true)
    (proper : ∀ a ∈ as, a.Proper) :
    IsElement [as.map RawAttribute.name]
      ('<' :: (name ++ as.flatMap RawAttribute.written ++ ['/', '>']))
  | paired {name : List Char} {as : List RawAttribute} {tags : List (List String)}
    {inner : List Char} (named : Name.isQualified name = true) (proper : ∀ a ∈ as, a.Proper)
    (inside : IsContent tags inner) :
    IsElement (as.map RawAttribute.name :: tags)
      ('<' :: (name ++ as.flatMap RawAttribute.written ++
        '>' :: (inner ++ '<' :: '/' :: (name ++ ['>']))))

inductive IsContent : List (List String) → List Char → Prop
  | nil : IsContent [] []
  | text {run : List Char} {tags : List (List String)} {rest : List Char} (escaped : Escaped run)
    (behind : IsContent tags rest) : IsContent tags (run ++ rest)
  | element {own tags : List (List String)} {cs rest : List Char} (first : IsElement own cs)
    (behind : IsContent tags rest) : IsContent (own ++ tags) (cs ++ rest)

end

theorem IsContent.append {tags more : List (List String)} {cs ds : List Char} :
    IsContent tags cs → IsContent more ds → IsContent (tags ++ more) (cs ++ ds)
  | .nil, h => h
  | .text escaped behind, h => by
    rw [List.append_assoc]
    exact .text escaped (behind.append h)
  | .element first behind, h => by
    rw [List.append_assoc, List.append_assoc]
    exact .element first (behind.append h)

/-- One element, each of whose tags has attributes of different names. -/
def WellFormed (cs : List Char) : Prop :=
  ∃ tags, IsElement tags cs ∧ ∀ names ∈ tags, names.Nodup

namespace Escaped

variable {cs rest : List Char}

theorem of_plain (h : Escaped rest) (plain : ∀ c ∈ cs, c ≠ '<' ∧ c ≠ '&') : Escaped (cs ++ rest) := by
  induction cs with
  | nil => exact h
  | cons c cs ih =>
    obtain ⟨⟨bracket, ampersand⟩, others⟩ := List.forall_mem_cons.mp plain
    exact ⟨bracket, fun same => absurd same ampersand, ih others⟩

theorem unbracketed (h : Escaped cs) : ∀ c ∈ cs, c ≠ '<' := by
  induction cs with
  | nil => exact nofun
  | cons c cs ih =>
    obtain ⟨bracket, -, others⟩ := h
    exact List.forall_mem_cons.mpr ⟨bracket, ih others⟩

end Escaped

theorem escaped_escape (cs : List Char) : Escaped (escape cs) := by
  induction cs with
  | nil => trivial
  | cons c cs ih =>
    rw [escape_cons]
    rcases escapeChar_cases c with ⟨name, written, known, lower⟩ | ⟨written, bracket, -, ampersand, -⟩
    · have reference : (reference? name).isSome = true := by
        rw [reference?_of_isLower lower, known]
        rfl
      have letters : ∀ d ∈ name ++ [';'], d ≠ '<' ∧ d ≠ '&' := by
        refine List.forall_mem_append.mpr ⟨fun d member => ?_, by simp⟩
        exact ⟨ne_of_isLower (lower d member) (by decide), ne_of_isLower (lower d member) (by decide)⟩
      rw [written, List.cons_append]
      exact ⟨by decide, fun _ => ⟨name, escape cs, by simp, reference⟩, ih.of_plain letters⟩
    · rw [written]
      exact ⟨bracket, fun same => absurd same ampersand, ih⟩

theorem proper_escape {key : List Char} (named : Name.isQualified key = true) (value : List Char) :
    RawAttribute.Proper ⟨key, escape value⟩ :=
  ⟨named, escaped_escape value, fun c member => (ne_of_mem_escape c member).2.2.2⟩

def namesOf : Event → Option (List String)
  | .start tag => (tag.eachAttribute true).toOption.map fun as => as.map RawAttribute.name
  | .empty tag => (tag.eachAttribute true).toOption.map fun as => as.map RawAttribute.name
  | _ => none

inductive Finds : List Char → List (List String) → Prop
  | finished : Finds [] []
  | event {cs rest : List Char} {e : Event} {tags : List (List String)}
    (read : next cs = .event e rest) (behind : Finds rest tags) :
    Finds cs ((namesOf e).toList ++ tags)

theorem RawAttribute.Proper.quotable {a : RawAttribute} (h : a.Proper) : a.Quotable :=
  ⟨Name.solid_of_isQualified h.key, h.unquoted⟩

namespace Finds

variable {cs rest name : List Char} {tags : List (List String)} {as : List RawAttribute}

theorem unique {others : List (List String)} (h : Finds cs tags) (other : Finds cs others) :
    tags = others := by
  induction h generalizing others with
  | finished =>
    cases other with
    | finished => rfl
    | event read _ => cases read
  | event read _ ih =>
    cases other with
    | finished => cases read
    | event same behind =>
      rw [read] at same
      cases same
      rw [ih behind]

theorem opening (h : Finds rest tags) (named : Name.isQualified name = true)
    (proper : ∀ a ∈ as, a.Proper) :
    Finds ('<' :: (name ++ as.flatMap RawAttribute.written ++ '>' :: rest))
      (as.map RawAttribute.name :: tags) := by
  have quotable : ∀ a ∈ as, a.Quotable := fun a member => (proper a member).quotable
  have found := event (next_start (Name.solid_of_isQualified named) quotable) h
  rwa [namesOf, eachAttribute_tag true name quotable] at found

theorem alone (h : Finds rest tags) (named : Name.isQualified name = true)
    (proper : ∀ a ∈ as, a.Proper) :
    Finds ('<' :: (name ++ as.flatMap RawAttribute.written ++ '/' :: '>' :: rest))
      (as.map RawAttribute.name :: tags) := by
  have quotable : ∀ a ∈ as, a.Quotable := fun a member => (proper a member).quotable
  have found := event (next_empty (Name.solid_of_isQualified named) quotable) h
  rwa [namesOf, eachAttribute_tag true name quotable] at found

theorem closing (h : Finds rest tags) (named : Name.isQualified name = true) :
    Finds ('<' :: '/' :: (name ++ '>' :: rest)) tags :=
  event (next_close (Name.solid_of_isQualified named)) h

theorem behind_text (h : Finds cs tags) : Finds (cs.dropWhile (· != '<')) tags := by
  cases cs with
  | nil => exact h
  | cons c cs =>
    by_cases bracket : c = '<'
    · rwa [bracket, List.dropWhile_cons_of_neg (by simp), ← bracket]
    · rw [List.dropWhile_cons_of_pos (by simpa using bracket)]
      cases h with
      | event read behind =>
        rw [next_text bracket] at read
        cases read
        exact behind

theorem text {run : List Char} (h : Finds rest tags) (plain : ∀ c ∈ run, c ≠ '<') :
    Finds (run ++ rest) tags := by
  cases run with
  | nil => exact h
  | cons c run =>
    obtain ⟨first, others⟩ := List.forall_mem_cons.mp plain
    have before : ∀ d ∈ run, (d != '<') = true := fun d member => by simpa using others d member
    -- The event also takes what comes behind the run before a bracket.
    have read := @next_text c (run ++ rest) first
    rw [List.dropWhile_append_of_pos before] at read
    exact event read h.behind_text

end Finds

mutual

theorem IsElement.finds {own : List (List String)} {cs : List Char} : IsElement own cs →
    ∀ {tags rest}, Finds rest tags → Finds (cs ++ rest) (own ++ tags)
  | .alone named proper, tags, rest, h => by
    simpa using h.alone named proper
  | .paired named proper inside, tags, rest, h => by
    have within := inside.finds (h.closing named)
    simpa using within.opening named proper

theorem IsContent.finds {own : List (List String)} {cs : List Char} : IsContent own cs →
    ∀ {tags rest}, Finds rest tags → Finds (cs ++ rest) (own ++ tags)
  | .nil, tags, rest, h => h
  | .text escaped behind, tags, rest, h => by
    rw [List.append_assoc]
    exact (behind.finds h).text escaped.unbracketed
  | .element first behind, tags, rest, h => by
    rw [List.append_assoc, List.append_assoc]
    exact first.finds (behind.finds h)

end

theorem IsElement.unique {tags others : List (List String)} {cs : List Char} (h : IsElement tags cs)
    (other : IsElement others cs) : tags = others := by
  have one := h.finds .finished
  have two := other.finds .finished
  rw [List.append_nil] at one two
  simpa using one.unique two

theorem wellFormed_iff {tags : List (List String)} {cs : List Char} (h : IsElement tags cs) :
    WellFormed cs ↔ ∀ names ∈ tags, names.Nodup := by
  constructor
  · rintro ⟨others, other, distinct⟩
    rwa [h.unique other]
  · exact fun distinct => ⟨tags, h, distinct⟩

end TaintScan.Markup
