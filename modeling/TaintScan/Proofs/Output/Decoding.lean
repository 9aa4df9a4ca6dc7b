import TaintScan.Proofs.Markup.References
import TaintScan.Proofs.Markup.Tag
import TaintScan.Proofs.Output.Outline

namespace TaintScan.Output

open Markup (Event RawAttribute Tag mixes holdsKnown holdsUnknown replaceReferences)

def replaced (raw : List Char) : String := String.ofList (replaceReferences raw)

/-- The texts and attribute values of an event as they are written. -/
def runsOf : Event → List (List Char)
  | .start tag => ((tag.attributes true).toOption.getD []).map RawAttribute.value
  | .empty tag => ((tag.attributes true).toOption.getD []).map RawAttribute.value
  | .text raw => [raw]
  | _ => []

theorem decoded_eq (raw : List Char) :
    decoded raw = if mixes raw then String.ofList raw else replaced raw := by
  rw [decoded, Markup.unescape_eq, mixes, replaced]
  cases unknown : holdsUnknown raw with
  | false => simp
  | true =>
    cases known : holdsKnown raw with
    | false => simp [Markup.replaceReferences_eq_self known]
    | true => simp

theorem decoded_eq_replaced_iff {raw : List Char} : decoded raw = replaced raw ↔ mixes raw = false := by
  rw [decoded_eq]
  cases mixed : mixes raw with
  | false => simp
  | true =>
    have known : holdsKnown raw = true := (Bool.and_eq_true_iff.mp mixed).1
    simp only [if_true, replaced, String.ofList_inj, Bool.true_eq_false, iff_false]
    intro same
    rw [Markup.replaceReferences_eq_self_iff.mp same.symm] at known
    cases known

def Blank (text : String) : Prop := text.toList.all Text.isBlank = true

def DifferInWords (d d' : List Char → String) : Prop :=
  ∀ raw, d raw ≠ d' raw → ¬ Blank (d raw) ∧ ¬ Blank (d' raw)

theorem decoded_differInWords : DifferInWords decoded replaced := by
  intro raw differ
  have mixed : mixes raw = true := by
    rw [← Bool.not_eq_false]
    exact fun pure => differ (decoded_eq_replaced_iff.mpr pure)
  have unknown : holdsUnknown raw = true := (Bool.and_eq_true_iff.mp mixed).2
  -- The ampersand that begins no reference is in both.
  have ampersand {text : List Char} (member : '&' ∈ text) : ¬ Blank (String.ofList text) := by
    intro blank
    rw [Blank, String.toList_ofList] at blank
    exact absurd (List.all_eq_true.mp blank '&' member) (by decide)
  rw [decoded_eq, if_pos mixed]
  exact ⟨ampersand (Markup.mem_of_holdsUnknown unknown),
    ampersand (Markup.mem_replaceReferences unknown)⟩

namespace Outline

variable {d d' : List Char → String} {o p q : Outline} {e : Event}

theorem elementItem?_congr {tag : Tag} (agree : ∀ raw ∈ runsOf (.start tag), d raw = d' raw) :
    elementItem? d tag = elementItem? d' tag := by
  unfold elementItem?
  cases read : tag.attributes true with
  | error fault => rfl
  | ok as =>
    have values : ∀ a ∈ as, d a.value = d' a.value := fun a member =>
      agree a.value (by rw [runsOf, read]; exact List.mem_map_of_mem member)
    have same : (as.map fun a => (String.ofList a.key, d a.value)) =
        as.map fun a => (String.ofList a.key, d' a.value) :=
      List.map_congr_left fun a member => by rw [values a member]
    rw [Except.toOption, Option.map_some, Option.map_some, same]

theorem elementItem?_inj {tag : Tag} {item : Item} (one : elementItem? d tag = some item)
    (two : elementItem? d' tag = some item) : ∀ raw ∈ runsOf (.start tag), d raw = d' raw := by
  unfold elementItem? at one two
  cases read : tag.attributes true with
  | error fault =>
    rw [read] at one
    cases one
  | ok as =>
    rw [read] at one two
    have lists := (Item.element.inj (Option.some.inj (one.trans two.symm))).2
    intro raw member
    rw [runsOf, read] at member
    obtain ⟨a, inside, rfl⟩ := List.mem_map.mp member
    exact (Prod.mk.inj (List.map_inj_left.mp lists a inside)).2

theorem read_congr (agree : ∀ raw ∈ runsOf e, d raw = d' raw) : o.read d e = o.read d' e := by
  cases e with
  | start tag => rw [Outline.read, Outline.read, elementItem?_congr agree]
  | empty tag => rw [Outline.read, Outline.read, elementItem?_congr agree]
  | text raw =>
    have same : d raw = d' raw := agree raw (List.mem_singleton_self raw)
    rw [Outline.read, Outline.read, same]
  | close | cdata | comment | instruction | declaration | doctype => rfl

theorem prefix_of_read (h : o.read d e = some p) : o.listed <+: p.listed := by
  cases e with
  | start tag =>
    obtain ⟨item, -, rfl⟩ := Option.map_eq_some_iff.mp h
    split
    · exact List.prefix_append _ _
    · exact List.prefix_append _ _
  | empty tag =>
    obtain ⟨item, -, rfl⟩ := Option.map_eq_some_iff.mp h
    exact List.prefix_append _ _
  | close name =>
    cases h
    unfold leave
    split
    · exact List.prefix_rfl
    · exact List.prefix_rfl
  | text raw =>
    cases h
    split
    · exact List.prefix_rfl
    · split
      · exact List.prefix_append _ _
      · exact List.prefix_append _ _
  | cdata raw =>
    cases h
    exact List.prefix_append _ _
  | comment | instruction | declaration | doctype =>
    cases h
    exact List.prefix_rfl

theorem prefix_of_readAll {events : List Event} (h : o.readAll d events = some p) :
    o.listed <+: p.listed := by
  induction events generalizing o with
  | nil =>
    cases h
    exact List.prefix_rfl
  | cons e rest ih =>
    obtain ⟨between, first, more⟩ := Option.bind_eq_some_iff.mp h
    exact (prefix_of_read first).trans (ih more)

theorem read_alike (differ : DifferInWords d d') (one : o.read d e = some p)
    (two : o.read d' e = some q) : (∀ raw ∈ runsOf e, d raw = d' raw) ∨
      ∃ item item', item ≠ item' ∧ p.listed = (o.add item).listed ∧ q.listed = (o.add item').listed := by
  by_cases agree : ∀ raw ∈ runsOf e, d raw = d' raw
  · exact .inl agree
  refine .inr ?_
  cases e with
  | start tag =>
    obtain ⟨item, made, rfl⟩ := Option.map_eq_some_iff.mp one
    obtain ⟨item', made', rfl⟩ := Option.map_eq_some_iff.mp two
    refine ⟨item, item', fun same => agree (elementItem?_inj made (same ▸ made')), ?_⟩
    split
    · exact ⟨rfl, rfl⟩
    · exact ⟨rfl, rfl⟩
  | empty tag =>
    obtain ⟨item, made, rfl⟩ := Option.map_eq_some_iff.mp one
    obtain ⟨item', made', rfl⟩ := Option.map_eq_some_iff.mp two
    exact ⟨item, item', fun same => agree (elementItem?_inj made (same ▸ made')), rfl, rfl⟩
  | text raw =>
    have other : d raw ≠ d' raw := by simpa [runsOf] using agree
    obtain ⟨here, there⟩ := differ raw other
    unfold Blank at here there
    cases one
    cases two
    rw [if_neg here, if_neg there]
    split
    · exact ⟨_, _, fun same => other (Item.data.inj same), rfl, rfl⟩
    · exact ⟨_, _, fun same => other (Item.text.inj same), rfl, rfl⟩
  | close | cdata | comment | instruction | declaration | doctype => exact absurd nofun agree

theorem readAll_listed_iff (differ : DifferInWords d d') {events : List Event}
    (one : o.readAll d events = some p) : (o.readAll d' events).map listed = some p.listed ↔
      ∀ raw ∈ events.flatMap runsOf, d raw = d' raw := by
  induction events generalizing o with
  | nil =>
    cases one
    exact ⟨fun _ => nofun, fun _ => rfl⟩
  | cons e rest ih =>
    obtain ⟨between, first, more⟩ := Option.bind_eq_some_iff.mp one
    rw [List.flatMap_cons, List.forall_mem_append, readAll]
    constructor
    · intro same
      obtain ⟨q, two, listed⟩ := Option.map_eq_some_iff.mp same
      obtain ⟨between', first', more'⟩ := Option.bind_eq_some_iff.mp two
      rcases read_alike differ first first' with agree | ⟨item, item', other, here, there⟩
      · have next : between' = between := by
          rw [read_congr agree, first'] at first
          exact Option.some.inj first
        rw [next] at more'
        exact ⟨agree, (ih more).mp (by rw [more', Option.map_some, listed])⟩
      · -- What was listed once stays, so the two listings differ to the end.
        have begins := prefix_of_readAll more
        have begins' := prefix_of_readAll more'
        rw [here] at begins
        rw [there, listed] at begins'
        have length : (o.add item).listed.length = (o.add item').listed.length := by simp [add]
        have alike := (List.prefix_of_prefix_length_le begins begins' length.le).eq_of_length length
        exact absurd (by simpa [add] using alike) other
    · rintro ⟨agree, others⟩
      rw [← read_congr agree, first, Option.bind_some]
      exact (ih more).mpr others

end Outline

theorem outline_replaced_iff {text : String} {o : Output} (parsed : parse text = .ok o) :
    outline replaced (Markup.read text.toList).events = some o.listing ↔
      ∀ raw ∈ (Markup.read text.toList).events.flatMap runsOf, mixes raw = false := by
  obtain ⟨-, listed⟩ := parse_eq_ok_iff_listing.mp parsed
  obtain ⟨p, whole, listing⟩ := Option.map_eq_some_iff.mp listed
  rw [outline, ← listing, Outline.readAll_listed_iff decoded_differInWords whole]
  simp only [decoded_eq_replaced_iff]

/-- The tree of a text holds each text and attribute value with its references replaced one by one,
unless there are both references that name characters and others in it: then it is kept as it is
written. So all are replaced one by one exactly when none has both. -/
theorem parse_decodes (text : String) (o : Output) :
    (parse text = .ok o ↔ (Markup.read text.toList).fault = none ∧
      outline (fun raw => if mixes raw then String.ofList raw else replaced raw)
        (Markup.read text.toList).events = some o.listing) ∧
    (parse text = .ok o → (outline replaced (Markup.read text.toList).events = some o.listing ↔
      ∀ raw ∈ (Markup.read text.toList).events.flatMap runsOf, mixes raw = false)) := by
  have decoding : decoded = fun raw => if mixes raw then String.ofList raw else replaced raw :=
    funext decoded_eq
  rw [← decoding]
  exact ⟨parse_eq_ok_iff_listing, outline_replaced_iff⟩

theorem texts_not_always_decoded : ¬ ∀ text o, parse text = .ok o →
    outline replaced (Markup.read text.toList).events = some o.listing := by
  intro claimed
  have start : Markup.next "<p>&lt; &nbsp;</p>".toList =
      .event (.start ⟨['p'], []⟩) "&lt; &nbsp;</p>".toList := rfl
  have run : Markup.next "&lt; &nbsp;</p>".toList =
      .event (.text "&lt; &nbsp;".toList) "</p>".toList := rfl
  have close : Markup.next "</p>".toList = .event (.close ['p']) [] := rfl
  have finished (position : Nat) : Markup.readFrom position [] = ⟨[], none⟩ := by
    rw [Markup.readFrom]
    rfl
  have whole : Markup.read "<p>&lt; &nbsp;</p>".toList =
      ⟨[.start ⟨['p'], []⟩, .text "&lt; &nbsp;".toList, .close ['p']], none⟩ := by
    refine (Markup.readFrom_of_next start 0).trans ?_
    rw [Markup.readFrom_of_next run, Markup.readFrom_of_next close, finished]
    rfl
  have bare : Tag.attributes true ⟨['p'], []⟩ = .ok [] := by
    rw [Tag.attributes, Markup.readAttributes]
    rfl
  obtain ⟨b, built⟩ : ∃ b, build .start (Markup.read "<p>&lt; &nbsp;</p>".toList).events = .ok b := by
    rw [whole, build, buildEvent, elementOf, bare]
    exact ⟨_, rfl⟩
  have parsed : parse "<p>&lt; &nbsp;</p>" = .ok b.finish :=
    parse_eq_ok.mpr ⟨by rw [whole], b, built, rfl⟩
  have pure := (outline_replaced_iff parsed).mp (claimed _ _ parsed) "&lt; &nbsp;".toList
    (by rw [whole]; simp [runsOf])
  exact absurd pure (by decide)

end TaintScan.Output
