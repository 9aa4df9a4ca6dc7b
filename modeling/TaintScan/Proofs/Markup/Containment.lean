import TaintScan.Proofs.Markup.Balance
import TaintScan.Proofs.Markup.Front

namespace TaintScan.Markup

def Event.IsLeaf : Event → Prop
  | .text raw => (unescape raw).isSome = true
  | .empty tag => ∃ as, tag.eachAttribute false = .ok as ∧ (as.map RawAttribute.key).Nodup
  | .cdata _ => True
  | .comment => True
  | _ => False

inductive Nested : List Event → Prop
  | nil : Nested []
  | leaf {e : Event} {rest : List Event} (leaf : e.IsLeaf) (behind : Nested rest) : Nested (e :: rest)
  | element {tag : Tag} {inside rest : List Event} (within : Nested inside) (behind : Nested rest) :
    Nested (.start tag :: (inside ++ .close tag.name :: rest))

section Events

variable {opened after : List (List Char)} {name : List Char} {e : Event} {es ds : List Event}

theorem checkEvent_of_isLeaf (leaf : e.IsLeaf) (opened : List (List Char)) :
    checkEvent opened e = some opened := by
  cases e with
  | text raw =>
    have known : (unescape raw).isSome = true := leaf
    rw [checkEvent, if_pos known]
  | empty tag =>
    obtain ⟨as, read⟩ := leaf
    rw [checkEvent, attributes_eq_ok.mpr read]
  | cdata raw => rfl
  | comment => rfl
  | start | close | instruction | declaration | doctype => exact leaf.elim

theorem checkEvent_cases (h : checkEvent opened e = some after) :
    (e.IsLeaf ∧ after = opened) ∨ (∃ tag, e = .start tag ∧ after = tag.name :: opened) ∨
      ∃ name, e = .close name ∧ opened = name :: after := by
  cases e with
  | start tag =>
    cases h
    exact .inr (.inl ⟨tag, rfl, rfl⟩)
  | empty tag =>
    rw [checkEvent] at h
    split at h
    · rename_i as read
      cases h
      exact .inl ⟨⟨as, attributes_eq_ok.mp read⟩, rfl⟩
    · cases h
  | close name =>
    cases opened with
    | nil => cases h
    | cons innermost rest =>
      rw [checkEvent] at h
      split at h
      · rename_i same
        cases h
        exact .inr (.inr ⟨name, rfl, by rw [same]⟩)
      · cases h
  | text raw =>
    rw [checkEvent] at h
    split at h
    · rename_i known
      cases h
      exact .inl ⟨known, rfl⟩
    · cases h
  | cdata raw =>
    cases h
    exact .inl ⟨trivial, rfl⟩
  | comment =>
    cases h
    exact .inl ⟨trivial, rfl⟩
  | instruction | declaration | doctype => cases h

theorem checkEvents_append : checkEvents opened (es ++ ds) =
    (checkEvents opened es).bind fun between => checkEvents between ds := by
  induction es generalizing opened with
  | nil => rfl
  | cons e es ih =>
    rw [List.cons_append, checkEvents, checkEvents, Option.bind_assoc]
    simp only [ih]

theorem Nested.checkEvents (h : Nested es) (opened : List (List Char)) :
    checkEvents opened es = some opened := by
  induction h generalizing opened with
  | nil => rfl
  | leaf leaf _ ih => rw [Markup.checkEvents, checkEvent_of_isLeaf leaf, Option.bind_some, ih]
  | @element tag inside rest _ _ within behind =>
    have closed : checkEvent (tag.name :: opened) (.close tag.name) = some opened := by simp [checkEvent]
    rw [Markup.checkEvents, checkEvent, Option.bind_some, checkEvents_append, within, Option.bind_some,
      Markup.checkEvents, closed, Option.bind_some, behind]

-- Behind the events nothing is open. So from the elements that are open now, either there are none or
-- the innermost is closed at some end tag, and the events before that one nest.
theorem exists_nested : (es : List Event) → {opened : List (List Char)} →
    checkEvents opened es = some [] → ∃ inside, Nested inside ∧
      (opened = [] ∧ es = inside ∨ ∃ name outer rest, opened = name :: outer ∧
        es = inside ++ .close name :: rest ∧ checkEvents outer rest = some [])
  | [], opened, h => ⟨[], .nil, .inl ⟨Option.some.inj h, rfl⟩⟩
  | e :: es, opened, h => by
    obtain ⟨between, first, more⟩ := Option.bind_eq_some_iff.mp h
    rcases checkEvent_cases first with ⟨leaf, rfl⟩ | ⟨tag, rfl, rfl⟩ | ⟨name, rfl, rfl⟩
    · obtain ⟨inside, nested, ends⟩ := exists_nested es more
      refine ⟨e :: inside, .leaf leaf nested, ?_⟩
      rcases ends with ⟨none, rfl⟩ | ⟨name, outer, rest, innermost, rfl, closed⟩
      · exact .inl ⟨none, rfl⟩
      · exact .inr ⟨name, outer, rest, innermost, rfl, closed⟩
    · obtain ⟨within, nested, ends⟩ := exists_nested es more
      rcases ends with ⟨none, -⟩ | ⟨name, outer, rest, same, split, closed⟩
      · cases none
      · cases same
        have shorter : rest.length < es.length + 1 := by
          rw [split, List.length_append, List.length_cons]
          omega
        obtain ⟨inside, others, ends⟩ := exists_nested rest closed
        refine ⟨.start tag :: (within ++ .close tag.name :: inside), .element nested others, ?_⟩
        rcases ends with ⟨none, rfl⟩ | ⟨name, outer, last, innermost, rfl, outside⟩
        · exact .inl ⟨none, by rw [split]⟩
        · exact .inr ⟨name, outer, last, innermost, by rw [split]; simp, outside⟩
    · exact ⟨[], .nil, .inr ⟨name, between, es, rfl, rfl, more⟩⟩
termination_by es => es.length

theorem checkEvents_nil_iff : checkEvents [] es = some [] ↔ Nested es := by
  constructor
  · intro closed
    obtain ⟨inside, nested, ⟨-, rfl⟩ | ⟨name, outer, rest, none, -⟩⟩ := exists_nested es closed
    · exact nested
    · cases none
  · exact fun nested => nested.checkEvents []

theorem checkEvents_singleton_iff : checkEvents [name] es = some [] ↔
    ∃ inside later, es = inside ++ .close name :: later ∧ Nested inside ∧ Nested later := by
  constructor
  · intro closed
    obtain ⟨inside, nested, ⟨none, -⟩ | ⟨other, outer, rest, same, split, ends⟩⟩ := exists_nested es closed
    · cases none
    · cases same
      exact ⟨inside, rest, split, nested, checkEvents_nil_iff.mp ends⟩
  · rintro ⟨inside, later, rfl, within, behind⟩
    have ends : checkEvent [name] (.close name) = some [] := by simp [checkEvent]
    rw [checkEvents_append, within.checkEvents, Option.bind_some, checkEvents, ends, Option.bind_some,
      behind.checkEvents]

end Events

def within (name text : List Char) : List Char := '<' :: (name ++ '>' :: (text ++ endTag name))

/-- In an element of any name, the text's tags nest and the element's end tag is behind them. -/
def Contained (text : List Char) : Prop :=
  ∃ inside, Nested inside ∧ ∀ name, Name.isQualified name = true →
    read (within name text) = ⟨.start ⟨name, []⟩ :: (inside ++ [.close name]), none⟩

/-- An element with the name that fragments are judged in ends before the text does. -/
def Escapes (text : List Char) : Prop :=
  ∃ inside later, Nested inside ∧ Nested later ∧ later ≠ [] ∧ read (within "fragment".toList text) =
    ⟨.start ⟨"fragment".toList, []⟩ :: (inside ++ .close "fragment".toList :: later), none⟩

section Element

variable {name text front : List Char} {es : List Event}

theorem isFragment_eq (text : String) :
    isFragment text = isBalanced (within "fragment".toList text.toList) := by
  rw [isFragment, enclosed_eq]
  rfl

theorem isBalanced_eq_true {events : List Event} {fault : Option (Nat × Fault)} {cs : List Char}
    (whole : read cs = ⟨events, fault⟩) :
    isBalanced cs = true ↔ fault = none ∧ checkEvents [] events = some [] := by
  simp [isBalanced, whole]

theorem read_within (solid : Name.Solid name) (passes : Passes text es front) :
    ∃ position, read (within name text) =
      ⟨.start ⟨name, []⟩ :: (es ++ (readFrom position (front ++ endTag name)).events),
        (readFrom position (front ++ endTag name)).fault⟩ := by
  have start := @next_start name (text ++ endTag name) [] solid nofun
  rw [List.flatMap_nil, List.append_nil] at start
  obtain ⟨position, behind⟩ := passes.readFrom ('/' :: (name ++ ['>'])) _
  refine ⟨position, ?_⟩
  have whole : read (within name text) = readFrom 0 (within name text) := rfl
  rw [whole, within, readFrom_of_next start, endTag, behind]
  rfl

theorem readFrom_endTag (solid : Name.Solid name) (position : Nat) :
    readFrom position (endTag name) = ⟨[.close name], none⟩ := by
  rw [endTag, readFrom_of_next (next_close solid), readFrom]
  rfl

/-- What is left of a text makes one event with the end tag behind it, and that tag is the event only if
nothing is left. -/
theorem last_event (solid : Name.Solid name) (ends : front = [] ∨ Overruns name next front)
    {position : Nat} (sound : (readFrom position (front ++ endTag name)).fault = none) :
    ∃ e, (readFrom position (front ++ endTag name)).events = [e] ∧ (e = .close name → front = []) := by
  rcases ends with rfl | ⟨e, read, other⟩ | ⟨consumed, f, read⟩
  · rw [List.nil_append, readFrom_endTag solid]
    exact ⟨_, rfl, fun _ => rfl⟩
  · rw [readFrom_of_next read, readFrom]
    exact ⟨e, rfl, fun same => absurd same other⟩
  · rw [readFrom] at sound
    split at sound
    · simp_all
    · cases sound
    · simp_all

theorem solid_fragment : Name.Solid "fragment".toList := Name.solid_of_isMarkerSafe (by decide)

theorem contained_of_passes (passes : Passes text es []) (nested : Nested es) : Contained text := by
  refine ⟨es, nested, fun name qualified => ?_⟩
  have solid := Name.solid_of_isQualified qualified
  obtain ⟨position, whole⟩ := read_within solid passes
  rw [whole, List.nil_append, readFrom_endTag solid]

theorem Contained.isBalanced (contained : Contained text) (qualified : Name.isQualified name = true) :
    isBalanced (within name text) = true := by
  obtain ⟨inside, nested, whole⟩ := contained
  refine (isBalanced_eq_true (whole name qualified)).mpr ⟨rfl, ?_⟩
  exact checkEvents_nil_iff.mpr (@Nested.element ⟨name, []⟩ inside [] nested .nil)

theorem Escapes.isBalanced (escapes : Escapes text) :
    Markup.isBalanced (within "fragment".toList text) = true := by
  obtain ⟨inside, later, before, behind, -, whole⟩ := escapes
  refine (isBalanced_eq_true whole).mpr ⟨rfl, ?_⟩
  exact checkEvents_nil_iff.mpr (@Nested.element ⟨"fragment".toList, []⟩ inside later before behind)

theorem contained_or_escapes (balanced : isBalanced (within "fragment".toList text) = true) :
    Contained text ∨ Escapes text := by
  obtain ⟨es, front, passes, ends⟩ := exists_passes solid_fragment text
  obtain ⟨position, whole⟩ := read_within solid_fragment passes
  obtain ⟨sound, closed⟩ := (isBalanced_eq_true whole).mp balanced
  obtain ⟨e, last, final⟩ := last_event solid_fragment ends sound
  rw [last] at whole closed
  obtain ⟨inside, later, split, before, behind⟩ := checkEvents_singleton_iff.mp closed
  rcases List.eq_nil_or_concat later with rfl | ⟨others, other, rfl⟩
  · obtain ⟨rfl, same⟩ := List.append_inj' split rfl
    obtain rfl := final (List.singleton_inj.mp same)
    exact .inl (contained_of_passes passes before)
  · refine .inr ⟨inside, _, before, behind, by simp, ?_⟩
    rw [whole, split, sound]

theorem Escapes.exists_passes (escapes : Escapes text) : ∃ inside later front, Nested inside ∧
    Passes text (inside ++ .close "fragment".toList :: later) front := by
  obtain ⟨inside, later, before, -, more, whole⟩ := escapes
  obtain ⟨es, front, passes, ends⟩ := Markup.exists_passes solid_fragment text
  obtain ⟨position, whole'⟩ := read_within solid_fragment passes
  rw [whole] at whole'
  obtain ⟨same, sound⟩ := Reading.mk.inj whole'
  obtain ⟨e, last, -⟩ := last_event solid_fragment ends sound.symm
  obtain ⟨others, other, rfl⟩ := (List.eq_nil_or_concat later).resolve_left more
  have inner := (List.cons.inj same).2
  rw [last, List.concat_eq_append, ← List.cons_append, ← List.append_assoc] at inner
  obtain ⟨rfl, -⟩ := List.append_inj' inner rfl
  exact ⟨inside, others, front, before, passes⟩

theorem Escapes.infix (escapes : Escapes text) : "</fragment".toList <:+: text := by
  obtain ⟨inside, later, front, -, passes⟩ := escapes.exists_passes
  have mark : "</fragment".toList = '<' :: '/' :: "fragment".toList := by decide
  rw [mark]
  exact passes.infix_of_close (by simp)

theorem Escapes.not_isBalanced (escapes : Escapes text) (qualified : Name.isQualified name = true)
    (other : name ≠ "fragment".toList) : Markup.isBalanced (within name text) = false := by
  obtain ⟨inside, later, front, before, passes⟩ := escapes.exists_passes
  obtain ⟨position, whole⟩ := read_within (Name.solid_of_isQualified qualified) passes
  have mismatch : checkEvent [name] (.close "fragment".toList) = none := by
    rw [checkEvent, if_neg other]
  rw [← Bool.not_eq_true, isBalanced_eq_true whole]
  rintro ⟨-, closed⟩
  rw [checkEvents, checkEvent, Option.bind_some, List.append_assoc, checkEvents_append,
    before.checkEvents, Option.bind_some, List.cons_append, checkEvents, mismatch] at closed
  cases closed

end Element

/-- The texts that pass for element content: those that nest in an element of any name, and those that
end the element they are judged in, which are content of no other. -/
theorem isFragment_eq_true_iff (text : String) :
    (isFragment text = true ↔ Contained text.toList ∨ Escapes text.toList) ∧
    (Escapes text.toList → ¬ Contained text.toList ∧ "</fragment".toList <:+: text.toList ∧
      ∀ name, Name.isQualified name = true → name ≠ "fragment".toList →
        isBalanced (within name text.toList) = false) := by
  refine ⟨?_, fun escapes => ⟨fun contained => ?_, escapes.infix, fun name => escapes.not_isBalanced⟩⟩
  · rw [isFragment_eq]
    exact ⟨contained_or_escapes, Or.rec (fun contained => contained.isBalanced (by decide))
      fun escapes => escapes.isBalanced⟩
  · have sound : isBalanced (within ['p'] text.toList) = true := contained.isBalanced (by decide)
    rw [escapes.not_isBalanced (by decide) (by decide)] at sound
    cases sound

theorem fragment_not_always_contained :
    (¬ ∀ text : String, isFragment text = true → ∀ name, Name.isQualified name = true →
      ∃ inside, Nested inside ∧ read (within name text.toList) =
        ⟨.start ⟨name, []⟩ :: (inside ++ [.close name]), none⟩) ∧
    ¬ ∀ text : String, isFragment text = true →
      ∀ tag, .start tag ∈ (read (enclosed text.toList)).events → ∃ as, tag.attributes false = .ok as := by
  constructor
  · intro claimed
    have accepted : isFragment (String.ofList ("</fragment>".toList ++ "<fragment>".toList)) = true := by
      refine isFragment_of_balances ?_
      have opens : Balances [] ('<' :: ("fragment".toList ++ '>' :: "</fragment>".toList)) :=
        balances_closing.start (by decide)
      exact opens.close (by decide)
    obtain ⟨inside, nested, whole⟩ := claimed _ accepted ['p'] (by decide)
    -- Behind the start tag of the element comes the end tag of another.
    have start : next (within ['p'] "</fragment><fragment>".toList) =
        .event (.start ⟨['p'], []⟩) ("</fragment><fragment></p>".toList) := rfl
    have close : next "</fragment><fragment></p>".toList =
        .event (.close "fragment".toList) "<fragment></p>".toList := rfl
    have balanced := checkEvents_nil_iff.mpr (@Nested.element ⟨['p'], []⟩ inside [] nested .nil)
    have first := (readFrom_of_next start 0).symm.trans whole
    rw [readFrom_of_next close] at first
    rw [← (Reading.mk.inj first).1] at balanced
    cases balanced
  · intro claimed
    have accepted : isFragment (String.ofList "<b a=1 a=2></b>".toList) = true := by
      refine isFragment_of_balances ?_
      refine .event (e := .start ⟨['b'], " a=1 a=2".toList⟩) rfl rfl ?_
      exact balances_closing.close (by decide)
    have outer : next (enclosed "<b a=1 a=2></b>".toList) =
        .event (.start ⟨"fragment".toList, []⟩) "<b a=1 a=2></b></fragment>".toList := rfl
    have inner : next "<b a=1 a=2></b></fragment>".toList =
        .event (.start ⟨['b'], " a=1 a=2".toList⟩) "</b></fragment>".toList := rfl
    have whole : read (enclosed (String.ofList "<b a=1 a=2></b>".toList).toList) = _ :=
      (readFrom_of_next outer 0).trans (congrArg _ (readFrom_of_next inner _))
    obtain ⟨as, attributes⟩ := claimed _ accepted ⟨['b'], " a=1 a=2".toList⟩ (by
      rw [whole]
      simp [Reading.push])
    rw [Tag.attributes, readAttributes] at attributes
    cases attributes

end TaintScan.Markup
