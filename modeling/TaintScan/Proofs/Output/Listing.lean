import Mathlib.Data.List.Basic
import TaintScan.Output.Tree

namespace TaintScan

inductive Item
  | element (name : String) (attributes : List (String × String))
  | text (content : String)
  | data (content : String)
deriving DecidableEq

structure Entry where
  parent : Option Nat
  item : Item
deriving DecidableEq

namespace Node

def item : Node → Item
  | element name attributes _ => .element name attributes.entries
  | text content => .text content
  | data content => .data content

def children : Node → List Node
  | element _ _ children => children
  | text _ => []
  | data _ => []

mutual

/-- The listing of a node in a parent, from the node's own number on. -/
def listing (parent : Option Nat) (number : Nat) : Node → List Entry
  | element name attributes children =>
    ⟨parent, .element name attributes.entries⟩ :: listingOf (some number) (number + 1) children
  | text content => [⟨parent, .text content⟩]
  | data content => [⟨parent, .data content⟩]

def listingOf (parent : Option Nat) (number : Nat) : List Node → List Entry
  | [] => []
  | n :: rest => listing parent number n ++ listingOf parent (number + n.size) rest

end

end Node

def Output.listing (o : Output) : List Entry := Node.listingOf none 0 o.nodes

namespace Node

variable {parent : Option Nat} {number : Nat}

theorem size_eq (n : Node) : n.size = 1 + sizeOfAll n.children := by
  cases n with
  | element name attributes children => rw [size, Node.children]
  | text content | data content => rfl

theorem listing_eq (n : Node) :
    listing parent number n = ⟨parent, n.item⟩ :: listingOf (some number) (number + 1) n.children := by
  cases n with
  | element name attributes children => rw [listing, item, Node.children]
  | text content | data content => rw [listing, item, Node.children, listingOf]

theorem listingOf_append (parent : Option Nat) (number : Nat) (ns ms : List Node) :
    listingOf parent number (ns ++ ms) =
      listingOf parent number ns ++ listingOf parent (number + sizeOfAll ns) ms := by
  induction ns generalizing number with
  | nil => rw [List.nil_append, listingOf, sizeOfAll, List.nil_append, Nat.add_zero]
  | cons n ns ih =>
    rw [List.cons_append, listingOf, listingOf, sizeOfAll, ih, List.append_assoc, Nat.add_assoc]

theorem listingOf_singleton (parent : Option Nat) (number : Nat) (n : Node) :
    listingOf parent number [n] = listing parent number n := by
  rw [listingOf, listingOf, List.append_nil]

theorem listing_element_append (parent : Option Nat) (number : Nat) (name : String)
    (attributes : OrderedMap String String) (inside more : List Node) :
    listing parent number (.element name attributes (inside ++ more)) =
      listing parent number (.element name attributes inside) ++
        listingOf (some number) (number + 1 + sizeOfAll inside) more := by
  rw [listing, listing, listingOf_append, List.cons_append]

theorem length_listingOf (parent : Option Nat) (number : Nat) :
    (ns : List Node) → (listingOf parent number ns).length = sizeOfAll ns
  | [] => by rw [listingOf, sizeOfAll, List.length_nil]
  | n :: rest => by
    have inner := length_listingOf (some number) (number + 1) n.children
    have others := length_listingOf parent (number + n.size) rest
    rw [listingOf, listing_eq, List.length_append, List.length_cons, inner, others, sizeOfAll, size_eq]
    omega
termination_by ns => sizeOfAll ns
decreasing_by
  all_goals
    rw [sizeOfAll, size_eq]
    omega

def rank : Option Nat → Nat
  | none => 0
  | some number => number + 1

def Outside (parent : Option Nat) (es : List Entry) : Prop :=
  ∀ e ∈ es.head?, rank e.parent < rank parent

theorem outside_nil : Outside parent [] := by
  intro e first
  cases first

theorem outside_append {p : Option Nat} {es : List Entry} (lower : rank p < rank parent)
    (outside : Outside p es) (ns : List Node) : Outside parent (listingOf p number ns ++ es) := by
  intro e first
  cases ns with
  | nil =>
    rw [listingOf, List.nil_append] at first
    exact Nat.lt_trans (outside e first) lower
  | cons n ns =>
    rw [listingOf, listing_eq] at first
    cases first
    exact lower

theorem not_outside_listingOf {n : Node} {ns : List Node} {es : List Entry} :
    ¬ Outside parent (listingOf parent number (n :: ns) ++ es) := by
  intro outside
  rw [listingOf, listing_eq] at outside
  exact Nat.lt_irrefl _ (outside _ rfl)

theorem ext_item {n m : Node} (item : n.item = m.item) (children : n.children = m.children) :
    n = m := by
  cases n with
  | element name attributes inside =>
    cases m with
    | element other others inside' =>
      obtain ⟨rfl, same⟩ := Item.element.inj item
      cases attributes
      cases others
      cases same
      cases children
      rfl
    | text content | data content => cases item
  | text content =>
    cases m with
    | text other => rw [Item.text.inj item]
    | element | data => cases item
  | data content =>
    cases m with
    | data other => rw [Item.data.inj item]
    | element | text => cases item

theorem listingOf_append_inj {parent : Option Nat} {number : Nat} (below : rank parent ≤ number) :
    (ns ms : List Node) → {es ds : List Entry} → Outside parent es → Outside parent ds →
    listingOf parent number ns ++ es = listingOf parent number ms ++ ds → ns = ms ∧ es = ds
  | [], [], es, ds, _, _, same => ⟨rfl, same⟩
  | [], m :: ms, es, ds, outside, _, same => by
    obtain rfl : es = listingOf parent number (m :: ms) ++ ds := same
    exact absurd outside not_outside_listingOf
  | n :: ns, [], es, ds, _, outside, same => by
    obtain rfl : listingOf parent number (n :: ns) ++ es = ds := same
    exact absurd outside not_outside_listingOf
  | n :: ns, m :: ms, es, ds, left, right, same => by
    rw [listingOf, listingOf, listing_eq, listing_eq, List.append_assoc, List.append_assoc,
      List.cons_append, List.cons_append] at same
    obtain ⟨first, more⟩ := List.cons.inj same
    have lower : rank parent < rank (some number) := Nat.lt_succ_of_le below
    obtain ⟨inner, others⟩ := listingOf_append_inj (Nat.le_refl _) n.children m.children
      (outside_append lower left ns) (outside_append lower right ms) more
    have alike : n = m := ext_item (Entry.mk.inj first).2 inner
    subst alike
    obtain ⟨rfl, final⟩ := listingOf_append_inj (Nat.le_trans below (Nat.le_add_right _ _)) ns ms left right
      others
    exact ⟨rfl, final⟩
termination_by ns => sizeOfAll ns
decreasing_by
  all_goals
    rw [sizeOfAll, size_eq]
    omega

end Node

theorem Output.listing_inj {o o' : Output} (same : o.listing = o'.listing) : o = o' := by
  have lists : Node.listingOf none 0 o.nodes ++ [] = Node.listingOf none 0 o'.nodes ++ [] := by
    rw [List.append_nil, List.append_nil]
    exact same
  obtain ⟨nodes, -⟩ := Node.listingOf_append_inj (Nat.zero_le 0) _ _ Node.outside_nil
    Node.outside_nil lists
  exact congrArg Output.mk nodes

end TaintScan
