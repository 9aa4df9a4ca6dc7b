import Mathlib.Data.List.Nodup
import TaintScan.Output.Parser
import TaintScan.Proofs.Markup.Attributes
import TaintScan.Proofs.OrderedMap
import TaintScan.Proofs.Output.Listing

namespace TaintScan.Output

open Markup (Event RawAttribute Tag)

/-- What events have listed, and the numbers and names of the elements open behind them, innermost
first. -/
structure Outline where
  listed : List Entry
  opened : List (Nat × String)

namespace Outline

def start : Outline := ⟨[], []⟩

def add (o : Outline) (item : Item) : Outline :=
  { o with listed := o.listed ++ [⟨o.opened.head?.map Prod.fst, item⟩] }

def enter (o : Outline) (name : String) (item : Item) : Outline :=
  { o.add item with opened := (o.listed.length, name) :: o.opened }

/-- Closes the innermost open element of a name and all that was opened in it. Without one, nothing
happens. -/
def leave (o : Outline) (name : String) : Outline :=
  match o.opened.dropWhile fun e => !Text.sameIgnoringCase e.2 name with
  | [] => o
  | _ :: outer => { o with opened := outer }

end Outline

def isVoidName (name : String) : Bool := voidElements.any (Text.sameIgnoringCase name)

def holdsDataName (name : String) : Bool :=
  Text.sameIgnoringCase name "script" || Text.sameIgnoringCase name "style"

def elementItem? (decode : List Char → String) (tag : Tag) : Option Item :=
  (tag.attributes true).toOption.map fun as =>
    .element (String.ofList tag.name) (as.map fun a => (String.ofList a.key, decode a.value))

/-- What an event lists, opens and closes. There is no result when attributes cannot be read. -/
def Outline.read (decode : List Char → String) (o : Outline) : Event → Option Outline
  | .start tag => (elementItem? decode tag).map fun item =>
    if isVoidName (String.ofList tag.name) then o.add item else o.enter (String.ofList tag.name) item
  | .empty tag => (elementItem? decode tag).map o.add
  | .close name => some (o.leave (String.ofList name))
  | .text raw =>
    some (if (decode raw).toList.all Text.isBlank then o
      else if o.opened.head?.any fun e => holdsDataName e.2 then o.add (.data (decode raw))
      else o.add (.text (decode raw)))
  | .cdata raw => some (o.add (.data (String.ofList raw)))
  | _ => some o

def Outline.readAll (decode : List Char → String) (o : Outline) : List Event → Option Outline
  | [] => some o
  | e :: rest => (o.read decode e).bind fun o => o.readAll decode rest

def outline (decode : List Char → String) (events : List Event) : Option (List Entry) :=
  (Outline.start.readAll decode events).map Outline.listed

open Node (listingOf sizeOfAll)

namespace Builder

/-- What closing open elements adds to the top level, with more nodes in the innermost. -/
def closing : List Opened → List Node → List Node
  | [], more => more
  | e :: outer, more => closing outer [.element e.name e.attributes (e.children ++ more)]

/-- The numbers and names of open elements. Each is numbered behind all that was finished before it. -/
def numbers (top : List Node) : List Opened → List (Nat × String)
  | [] => []
  | e :: outer => (sizeOfAll (top ++ closing outer []), e.name) :: numbers top outer

def nodes (b : Builder) : List Node := b.top ++ closing b.opened []

def outline (b : Builder) : Outline := ⟨listingOf none 0 b.nodes, numbers b.top b.opened⟩

variable {b : Builder} {n : Node} {e : Element}

-- More nodes in the innermost open element are listed last, as its children.
theorem listingOf_closing (top : List Node) (opened : List Opened) (more : List Node) :
    listingOf none 0 (top ++ closing opened more) = listingOf none 0 (top ++ closing opened []) ++
      listingOf ((numbers top opened).head?.map Prod.fst) (sizeOfAll (top ++ closing opened [])) more := by
  induction opened generalizing more with
  | nil => simp [closing, numbers, Node.listingOf_append]
  | cons e outer ih =>
    let parent := (numbers top outer).head?.map Prod.fst
    let number := sizeOfAll (top ++ closing outer [])
    have inner (cs : List Node) : listingOf none 0 (top ++ closing (e :: outer) cs) =
        listingOf none 0 (top ++ closing outer []) ++ Node.listing parent number e.toNode ++
          listingOf (some number) (number + 1 + sizeOfAll e.children) cs := by
      rw [closing, ih, Node.listingOf_singleton, Node.listing_element_append, List.append_assoc]
      rfl
    have count : sizeOfAll (top ++ closing (e :: outer) []) = number + 1 + sizeOfAll e.children := by
      rw [← Node.length_listingOf none 0, inner [], Node.listing_eq]
      simp only [List.length_append, List.length_cons, Node.length_listingOf, sizeOfAll]
      simp only [number, Element.toNode, Node.children]
      omega
    rw [count, inner more, inner [], listingOf, List.append_nil]
    rfl

theorem nodes_attach (b : Builder) (n : Node) : (b.attach n).nodes = b.top ++ closing b.opened [n] := by
  obtain ⟨opened, top⟩ := b
  cases opened with
  | nil => simp [attach, nodes, closing]
  | cons e outer => simp [attach, nodes, closing]

theorem numbers_attach (b : Builder) (n : Node) :
    numbers (b.attach n).top (b.attach n).opened = numbers b.top b.opened := by
  obtain ⟨opened, top⟩ := b
  cases opened with
  | nil => rfl
  | cons e outer => rfl

theorem outline_attach (leaf : n.children = []) : (b.attach n).outline = b.outline.add n.item := by
  rw [outline, nodes_attach, numbers_attach, listingOf_closing, Node.listingOf_singleton,
    Node.listing_eq, leaf, listingOf]
  rfl

theorem outline_push (leaf : e.children = []) :
    (b.push e).outline = b.outline.enter e.name e.toNode.item := by
  have same : (b.push e).nodes = (b.attach e.toNode).nodes := by
    rw [nodes_attach, nodes, push, closing, leaf, List.append_nil, Element.toNode, leaf]
  have added : (b.attach e.toNode).outline = b.outline.add e.toNode.item := outline_attach leaf
  have number : b.outline.listed.length = sizeOfAll b.nodes := Node.length_listingOf none 0 _
  rw [outline, same, Outline.enter, number, ← added]
  rfl

theorem nodes_pop (b : Builder) : b.pop.nodes = b.nodes := by
  obtain ⟨opened, top⟩ := b
  cases opened with
  | nil => rfl
  | cons e outer =>
    rw [pop, nodes_attach, nodes, closing, List.append_nil]
    rfl

theorem numbers_pop (b : Builder) :
    numbers b.pop.top b.pop.opened = (numbers b.top b.opened).tail := by
  obtain ⟨opened, top⟩ := b
  cases opened with
  | nil => rfl
  | cons e outer => rw [pop, numbers_attach, numbers, List.tail_cons]

theorem outline_pop (b : Builder) : b.pop.outline = { b.outline with opened := b.outline.opened.tail } := by
  rw [outline, nodes_pop, numbers_pop]
  rfl

theorem outline_popMany (count : Nat) (b : Builder) :
    (popMany count b).outline = { b.outline with opened := b.outline.opened.drop count } := by
  induction count generalizing b with
  | zero => rfl
  | succ count ih => rw [popMany, ih, outline_pop, List.drop_tail]

theorem names_numbers (top : List Node) (opened : List Opened) :
    (numbers top opened).map Prod.snd = opened.map Element.name := by
  induction opened with
  | nil => rfl
  | cons e outer ih => rw [numbers, List.map_cons, List.map_cons, ih]

theorem outline_close (b : Builder) (name : String) : (b.close name).outline = b.outline.leave name := by
  have found : (b.opened.findIdx? fun e => e.isNamed name) =
      b.outline.opened.findIdx? fun e => Text.sameIgnoringCase e.2 name := by
    have byName := congrArg (List.findIdx? fun other => Text.sameIgnoringCase other name)
      (names_numbers b.top b.opened)
    rw [List.findIdx?_map, List.findIdx?_map] at byName
    exact byName.symm
  rw [close, found, Outline.leave, List.dropWhile_eq_drop_findIdx_not]
  simp only [Bool.not_not]
  cases known : b.outline.opened.findIdx? fun e => Text.sameIgnoringCase e.2 name with
  | none =>
    rw [List.findIdx_eq_length_of_false, List.drop_length]
    simpa using known
  | some depth =>
    obtain ⟨inside, same⟩ := List.findIdx?_eq_some_iff_findIdx_eq.mp known
    rw [same, List.drop_eq_getElem_cons inside]
    exact outline_popMany (depth + 1) b

theorem nodes_popMany (count : Nat) (b : Builder) : (popMany count b).nodes = b.nodes := by
  induction count generalizing b with
  | zero => rfl
  | succ count ih => rw [popMany, ih, nodes_pop]

theorem length_numbers (top : List Node) (opened : List Opened) :
    (numbers top opened).length = opened.length := by
  rw [← List.length_map Prod.snd, names_numbers, List.length_map]

theorem nodes_finish (b : Builder) : b.finish.nodes = b.nodes := by
  have none : (popMany b.opened.length b).opened = [] := by
    have left := congrArg Outline.opened (outline_popMany b.opened.length b)
    have count := congrArg List.length left
    simp only [outline, List.length_drop, length_numbers, Nat.sub_self] at count
    exact List.eq_nil_of_length_eq_zero count
  rw [← nodes_popMany b.opened.length b, nodes, none, closing, List.append_nil]
  rfl

end Builder

theorem elementOf_cases (tag : Tag) :
    (∃ error, elementOf tag = .error error ∧ elementItem? decoded tag = none) ∨
      ∃ e, elementOf tag = .ok e ∧ elementItem? decoded tag = some e.toNode.item ∧
        e.name = String.ofList tag.name ∧ e.children = [] := by
  unfold elementOf elementItem?
  cases read : tag.attributes true with
  | error fault => exact .inl ⟨_, rfl, rfl⟩
  | ok as =>
    refine .inr ⟨_, rfl, ?_, rfl, rfl⟩
    -- No key stands twice, so the map has all the attributes in their order.
    have injective : Function.Injective String.ofList := fun _ _ => String.ofList_injective
    have keys := List.Nodup.map injective (Markup.attributes_eq_ok.mp read).2
    rw [List.map_map] at keys
    have kept := @OrderedMap.entries_ofEntries _ _ _
      (as.map fun a => (String.ofList a.key, decoded a.value)) (by rw [List.map_map]; exact keys)
    simp [Element.toNode, Node.item, Except.toOption, kept]

theorem buildEvent_outline (b : Builder) (e : Event) :
    (buildEvent b e).toOption.map Builder.outline = b.outline.read decoded e := by
  have tagged (tag : Tag) (put : Element → Builder) (list : Item → Outline)
      (alike : ∀ e : Element, e.name = String.ofList tag.name → e.children = [] →
        (put e).outline = list e.toNode.item) :
      ((elementOf tag).map put).toOption.map Builder.outline =
        (elementItem? decoded tag).map list := by
    rcases elementOf_cases tag with ⟨error, broken, none⟩ | ⟨e, made, item, name, leaf⟩
    · rw [broken, none]
      rfl
    · rw [made, item]
      exact congrArg some (alike e name leaf)
  cases e with
  | start tag =>
    refine tagged tag _ _ fun e name leaf => ?_
    have same : isVoid e = isVoidName (String.ofList tag.name) := by
      rw [← name]
      rfl
    rw [same]
    split
    · exact Builder.outline_attach leaf
    · rw [← name]
      exact Builder.outline_push leaf
  | empty tag => exact tagged tag _ _ fun e _ leaf => Builder.outline_attach leaf
  | close name => exact congrArg some (Builder.outline_close b _)
  | text raw =>
    have parent : (b.outline.opened.head?.any fun e => holdsDataName e.2) =
        b.opened.head?.any Element.holdsData := by
      obtain ⟨opened, top⟩ := b
      cases opened with
      | nil => rfl
      | cons e outer => rfl
    simp only [buildEvent, textNode?, Outline.read, parent]
    by_cases blank : (decoded raw).toList.all Text.isBlank = true
    · simp [blank, Except.toOption]
    by_cases data : b.opened.head?.any Element.holdsData = true
    · rw [if_neg blank, if_neg blank, if_pos data, if_pos data]
      exact congrArg some (Builder.outline_attach rfl)
    · rw [if_neg blank, if_neg blank, if_neg data, if_neg data]
      exact congrArg some (Builder.outline_attach rfl)
  | cdata raw => exact congrArg some (Builder.outline_attach rfl)
  | comment | instruction | declaration | doctype => rfl

theorem build_outline (b : Builder) (events : List Event) :
    (build b events).toOption.map Builder.outline = b.outline.readAll decoded events := by
  induction events generalizing b with
  | nil => rfl
  | cons e rest ih =>
    rw [build, Outline.readAll, ← buildEvent_outline]
    cases buildEvent b e with
    | error fault => rfl
    | ok b => exact ih b

theorem listing_finish (b : Builder) : b.finish.listing = b.outline.listed := by
  rw [Output.listing, Builder.nodes_finish]
  rfl

theorem outline_eq (events : List Event) :
    outline decoded events = (build .start events).toOption.map fun b => b.finish.listing := by
  have whole := build_outline .start events
  rw [outline, show Outline.start = Builder.start.outline from rfl, ← whole, Option.map_map]
  congr 1
  funext b
  exact (listing_finish b).symm

theorem parse_eq_ok {text : String} {o : Output} : parse text = .ok o ↔
    (Markup.read text.toList).fault = none ∧
      ∃ b, build .start (Markup.read text.toList).events = .ok b ∧ b.finish = o := by
  rw [parse]
  cases build .start (Markup.read text.toList).events with
  | error error => simp
  | ok b =>
    cases (Markup.read text.toList).fault with
    | some fault => simp
    | none => simp

theorem parse_eq_ok_iff_listing {text : String} {o : Output} : parse text = .ok o ↔
    (Markup.read text.toList).fault = none ∧
      outline decoded (Markup.read text.toList).events = some o.listing := by
  rw [parse_eq_ok, outline_eq]
  cases build .start (Markup.read text.toList).events with
  | error error => simp [Except.toOption]
  | ok b =>
    have same : b.finish = o ↔ b.finish.listing = o.listing :=
      ⟨congrArg Output.listing, Output.listing_inj⟩
    simp [Except.toOption, same]

end TaintScan.Output
