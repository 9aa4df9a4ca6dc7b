import TaintScan.Proofs.Output.Outline

namespace TaintScan

theorem Node.elementsInAll_append (ns ms : List Node) :
    elementsInAll (ns ++ ms) = elementsInAll ns ++ elementsInAll ms := by
  induction ns with
  | nil => rfl
  | cons n ns ih => rw [List.cons_append, elementsInAll, elementsInAll, ih, List.append_assoc]

namespace Output

open Markup (Event Tag)

def Hollow (ns : List Node) : Prop := ∀ e ∈ Node.elementsInAll ns, isVoid e = true → e.children = []

namespace Hollow

variable {ns ms : List Node} {n : Node}

theorem nil : Hollow [] := List.forall_mem_nil _

theorem append (h : Hollow ns) (h' : Hollow ms) : Hollow (ns ++ ms) := by
  rw [Hollow, Node.elementsInAll_append]
  exact List.forall_mem_append.mpr ⟨h, h'⟩

theorem element {e : Element} (h : Hollow e.children) (void : isVoid e = true → e.children = []) :
    Hollow [e.toNode] := by
  rw [Hollow, Node.elementsInAll, Node.elementsInAll, List.append_nil, Element.toNode, Node.elementsIn]
  exact List.forall_mem_cons.mpr ⟨void, h⟩

end Hollow

structure Builder.Sound (b : Builder) : Prop where
  top : Hollow b.top
  opened : ∀ e ∈ b.opened, isVoid e = false ∧ Hollow e.children

theorem children_textNode? {parent : Option Element} {raw : List Char} {n : Node}
    (made : textNode? parent raw = some n) : n.children = [] := by
  simp only [textNode?] at made
  split at made
  · cases made
  · split at made
    · cases made
      rfl
    · cases made
      rfl

namespace Builder.Sound

variable {b : Builder} {n : Node} {e : Element}

theorem attach (h : b.Sound) (hollow : Hollow [n]) : (b.attach n).Sound := by
  obtain ⟨opened, top⟩ := b
  cases opened with
  | nil => exact ⟨h.top.append hollow, nofun⟩
  | cons e outer =>
    obtain ⟨⟨name, inside⟩, others⟩ := List.forall_mem_cons.mp h.opened
    exact ⟨h.top, List.forall_mem_cons.mpr ⟨⟨name, inside.append hollow⟩, others⟩⟩

theorem attach_leaf (h : b.Sound) (leaf : n.children = []) : (b.attach n).Sound := by
  refine h.attach ?_
  cases n with
  | element name attributes children =>
    cases leaf
    exact @Hollow.element ⟨name, attributes, []⟩ nofun fun _ => rfl
  | text content | data content => exact nofun

theorem push (h : b.Sound) (other : isVoid e = false) (leaf : e.children = []) : (b.push e).Sound :=
  ⟨h.top, List.forall_mem_cons.mpr ⟨⟨other, leaf ▸ .nil⟩, h.opened⟩⟩

theorem pop (h : b.Sound) : b.pop.Sound := by
  obtain ⟨opened, top⟩ := b
  cases opened with
  | nil => exact h
  | cons e outer =>
    obtain ⟨⟨name, inside⟩, others⟩ := List.forall_mem_cons.mp h.opened
    have below : Sound ⟨outer, top⟩ := ⟨h.top, others⟩
    exact below.attach (inside.element fun void => by rw [name] at void; cases void)

theorem popMany (h : b.Sound) (count : Nat) : (Builder.popMany count b).Sound := by
  induction count generalizing b with
  | zero => exact h
  | succ count ih => exact ih h.pop

theorem close (h : b.Sound) (name : String) : (b.close name).Sound := by
  unfold Builder.close
  split
  · exact h.popMany _
  · exact h

theorem buildEvent {after : Builder} {event : Event} (h : b.Sound)
    (built : Output.buildEvent b event = .ok after) : after.Sound := by
  have tagged {tag : Tag} {put : Element → Builder} (tagged : (elementOf tag).map put = .ok after)
      (kept : ∀ e : Element, e.children = [] → (put e).Sound) : after.Sound := by
    obtain ⟨e, made, rfl⟩ := Outcome.map_eq_ok.mp tagged
    rcases elementOf_cases tag with ⟨error, broken, -⟩ | ⟨other, read, -, -, leaf⟩
    · rw [made] at broken
      cases broken
    · exact kept e (Outcome.unique made read ▸ leaf)
  cases event with
  | start tag =>
    refine tagged built fun e leaf => ?_
    split
    · exact h.attach_leaf leaf
    · rename_i other
      exact h.push (by simpa using other) leaf
  | empty tag => exact tagged built fun e leaf => h.attach_leaf leaf
  | close name =>
    cases built
    exact h.close _
  | text raw =>
    obtain rfl := Except.ok.inj built
    cases made : textNode? b.opened.head? raw with
    | none => exact h
    | some n => exact h.attach_leaf (children_textNode? made)
  | cdata raw =>
    cases built
    exact h.attach_leaf rfl
  | comment | instruction | declaration | doctype =>
    cases built
    exact h

theorem build {after : Builder} {events : List Event} (h : b.Sound)
    (built : Output.build b events = .ok after) : after.Sound := by
  induction events generalizing b with
  | nil =>
    cases built
    exact h
  | cons e rest ih =>
    rw [Output.build] at built
    split at built
    · rename_i one
      exact ih (h.buildEvent one) built
    · cases built

end Builder.Sound

/-- The tree of a text has the listing that its events make, one entry for each tag that opens or is an
element, each text that is not blank and each section of character data, in the element that was the
innermost open one; and its void elements have no children. -/
theorem parse_lists_events (text : String) (o : Output) :
    (parse text = .ok o ↔ (Markup.read text.toList).fault = none ∧
      outline decoded (Markup.read text.toList).events = some o.listing) ∧
    (parse text = .ok o → ∀ e ∈ Node.elementsInAll o.nodes, isVoid e = true → e.children = []) := by
  refine ⟨parse_eq_ok_iff_listing, fun parsed => ?_⟩
  obtain ⟨-, b, built, rfl⟩ := parse_eq_ok.mp parsed
  have sound : b.Sound := Builder.Sound.build ⟨.nil, List.forall_mem_nil _⟩ built
  exact (sound.popMany b.opened.length).top

end Output

end TaintScan
