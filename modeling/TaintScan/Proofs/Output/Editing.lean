import TaintScan.Output.Path

namespace TaintScan

namespace Node

/-- Nodes with one of the elements among them replaced. The index counts the elements. -/
def editElement (put : Element → List Node) : Nat → List Node → List Node
  | _, [] => []
  | 0, .element name attributes children :: rest => put ⟨name, attributes, children⟩ ++ rest
  | index + 1, .element name attributes children :: rest =>
    .element name attributes children :: editElement put index rest
  | index, .text content :: rest => .text content :: editElement put index rest
  | index, .data content :: rest => .data content :: editElement put index rest

def editAt (put : Element → List Node) : List Nat → List Node → List Node
  | [], nodes => nodes
  | [index], nodes => editElement put index nodes
  | index :: next :: rest, nodes =>
    editElement (fun e => [.element e.name e.attributes (editAt put (next :: rest) e.children)])
      index nodes

def seek (nodes : List Node) : List Nat → Option Element
  | [] => none
  | index :: rest => ((nodes.filterMap element?)[index]?).bind fun e => NodePath.follow e rest

end Node

namespace Output

def replace (o : Output) (path : NodePath) (e : Element) : Output :=
  ⟨Node.editAt (fun _ => [e.toNode]) path.indices o.nodes⟩

/-- The output without the element at a path and what is in it. -/
def remove (o : Output) (path : NodePath) : Output :=
  ⟨Node.editAt (fun _ => []) path.indices o.nodes⟩

end Output

namespace NodePath

def nextIndices : List Nat → List Nat
  | [] => []
  | [index] => [index + 1]
  | index :: next :: rest => index :: nextIndices (next :: rest)

/-- The path of the element behind an element, among the elements beside it. -/
def next (p : NodePath) : NodePath := ⟨nextIndices p.indices⟩

theorem follow_cons (e : Element) (index : Nat) (rest : List Nat) :
    follow e (index :: rest) = Node.seek e.children (index :: rest) := by
  rw [follow, Node.seek, Element.childElements]
  cases (e.children.filterMap Node.element?)[index]? <;> rfl

theorem resolve_eq_seek (p : NodePath) (o : Output) : p.resolve o = Node.seek o.nodes p.indices := by
  rw [resolve]
  cases p.indices with
  | nil => rfl
  | cons index rest =>
    rw [locate, Node.seek, Output.elements]
    cases (o.nodes.filterMap Node.element?)[index]? <;> rfl

end NodePath

namespace Node

variable {put : Element → List Node} {nodes : List Node} {e : Element}

theorem seek_cons {index : Nat} {rest : List Nat} {found : Element}
    (h : seek nodes (index :: rest) = some found) :
    ∃ e, (nodes.filterMap element?)[index]? = some e ∧ NodePath.follow e rest = some found :=
  Option.bind_eq_some_iff.mp h

theorem seek_of_getElem? {index : Nat} (h : (nodes.filterMap element?)[index]? = some e)
    (rest : List Nat) : seek nodes (index :: rest) = NodePath.follow e rest := by
  rw [seek, h, Option.bind_some]

theorem elements_editElement {index : Nat} (h : (nodes.filterMap element?)[index]? = some e) :
    (editElement put index nodes).filterMap element? =
      (nodes.filterMap element?).take index ++ (put e).filterMap element? ++
        (nodes.filterMap element?).drop (index + 1) := by
  induction nodes generalizing index with
  | nil => simp at h
  | cons n rest ih =>
    cases n with
    | text content => simpa [editElement, element?, List.filterMap_cons] using ih h
    | data content => simpa [editElement, element?, List.filterMap_cons] using ih h
    | element name attributes children =>
      cases index with
      | zero =>
        obtain rfl : ⟨name, attributes, children⟩ = e := Option.some.inj h
        simp [editElement, element?]
      | succ index =>
        have below : (rest.filterMap element?)[index]? = some e := h
        simp [editElement, element?, ih below]

theorem length_take_of_getElem? {α : Type} {as : List α} {index : Nat} {a : α}
    (h : as[index]? = some a) : (as.take index).length = index :=
  List.length_take_of_le (Nat.le_of_lt (List.getElem?_eq_some_iff.mp h).1)

theorem getElem?_editElement_singleton {index : Nat} {e' : Element}
    (h : (nodes.filterMap element?)[index]? = some e)
    (single : (put e).filterMap element? = [e']) :
    ((editElement put index nodes).filterMap element?)[index]? = some e' := by
  have front := length_take_of_getElem? h
  rw [elements_editElement h, single, List.append_assoc, List.getElem?_append_right (Nat.le_of_eq front),
    front]
  simp

theorem getElem?_editElement_nil {index : Nat} (h : (nodes.filterMap element?)[index]? = some e)
    (none : (put e).filterMap element? = []) :
    ((editElement put index nodes).filterMap element?)[index]? =
      (nodes.filterMap element?)[index + 1]? := by
  have front := length_take_of_getElem? h
  rw [elements_editElement h, none, List.append_nil, List.getElem?_append_right (Nat.le_of_eq front),
    front]
  simp

theorem seek_editAt_replaced {indices : List Nat} {e' : Element} (h : seek nodes indices = some e) :
    seek (editAt (fun _ => [e'.toNode]) indices nodes) indices = some e' := by
  induction indices generalizing nodes with
  | nil => cases h
  | cons index rest ih =>
    obtain ⟨first, here, below⟩ := seek_cons h
    cases rest with
    | nil =>
      rw [editAt, seek_of_getElem? (getElem?_editElement_singleton here rfl)]
      rfl
    | cons next rest =>
      rw [NodePath.follow_cons] at below
      rw [editAt, seek_of_getElem? (getElem?_editElement_singleton here rfl), NodePath.follow_cons]
      exact ih below

theorem seek_editAt_removed {indices : List Nat} (h : seek nodes indices = some e) :
    seek (editAt (fun _ => []) indices nodes) indices = seek nodes (NodePath.nextIndices indices) := by
  -- Only the last step of the path is changed, so the steps above find what they found before.
  induction indices generalizing nodes with
  | nil => cases h
  | cons index rest ih =>
    obtain ⟨first, here, below⟩ := seek_cons h
    cases rest with
    | nil =>
      rw [editAt, NodePath.nextIndices, seek, seek, getElem?_editElement_nil here rfl]
    | cons next rest =>
      rw [NodePath.follow_cons] at below
      rw [editAt, NodePath.nextIndices, seek_of_getElem? here,
        seek_of_getElem? (getElem?_editElement_singleton here rfl), NodePath.follow_cons, ih below]
      cases rest <;> rw [NodePath.nextIndices, NodePath.follow_cons]

end Node

namespace Output

variable {o : Output} {path : NodePath} {e : Element}

theorem resolve_replace (h : path.resolve o = some e) (e' : Element) :
    path.resolve (o.replace path e') = some e' := by
  rw [NodePath.resolve_eq_seek] at h ⊢
  exact Node.seek_editAt_replaced h

theorem resolve_remove (h : path.resolve o = some e) :
    path.resolve (o.remove path) = path.next.resolve o := by
  rw [NodePath.resolve_eq_seek] at h
  rw [NodePath.resolve_eq_seek, NodePath.resolve_eq_seek]
  exact Node.seek_editAt_removed h

end Output

end TaintScan
