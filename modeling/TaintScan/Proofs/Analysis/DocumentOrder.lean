import Mathlib.Data.List.Sort
import TaintScan.Analysis.Site

namespace TaintScan

/-- Items are all that is found at positions, in the order of the positions. -/
def Enumerates {α : Type} (find : List Nat → Option α) (items : List α) : Prop :=
  ∃ positions : List (List Nat), positions.Pairwise (· < ·) ∧
    (∀ p, p ∈ positions ↔ (find p).isSome) ∧ positions.filterMap find = items

/-- Items are all that is found at positions that begin with an index or with a later one. -/
def EnumeratesFrom {α : Type} (start : Nat) (find : List Nat → Option α) (items : List α) : Prop :=
  ∃ positions : List (List Nat), positions.Pairwise (· < ·) ∧
    (∀ p, p ∈ positions ↔ ∃ i rest, p = i :: rest ∧ start ≤ i ∧ (find p).isSome) ∧
    positions.filterMap find = items

section Enumerations

variable {α : Type} {find : List Nat → Option α} {items first later : List α} {start : Nat} {a : α}

theorem EnumeratesFrom.nil (h : ∀ i rest, start ≤ i → find (i :: rest) = none) :
    EnumeratesFrom start find [] := by
  refine ⟨[], List.Pairwise.nil, fun p => ⟨nofun, ?_⟩, rfl⟩
  rintro ⟨i, rest, rfl, behind, found⟩
  rw [h i rest behind] at found
  cases found

theorem EnumeratesFrom.append (here : Enumerates (fun rest => find (start :: rest)) first)
    (behind : EnumeratesFrom (start + 1) find later) :
    EnumeratesFrom start find (first ++ later) := by
  obtain ⟨ps, inOrder, known, rfl⟩ := here
  obtain ⟨qs, inOrder', known', rfl⟩ := behind
  refine ⟨ps.map (start :: ·) ++ qs, ?_, fun p => ?_, ?_⟩
  · refine List.pairwise_append.mpr ⟨?_, inOrder', ?_⟩
    · exact List.pairwise_map.mpr (inOrder.imp fun h => List.Lex.cons h)
    · intro p hp q hq
      obtain ⟨p, -, rfl⟩ := List.mem_map.mp hp
      obtain ⟨i, rest, rfl, bound, -⟩ := (known' q).mp hq
      exact List.Lex.rel bound
  · rw [List.mem_append, List.mem_map]
    constructor
    · rintro (⟨rest, member, rfl⟩ | member)
      · exact ⟨start, rest, rfl, le_rfl, (known rest).mp member⟩
      · obtain ⟨i, rest, rfl, bound, found⟩ := (known' p).mp member
        exact ⟨i, rest, rfl, Nat.le_of_succ_le bound, found⟩
    · rintro ⟨i, rest, rfl, bound, found⟩
      rcases Nat.eq_or_lt_of_le bound with rfl | bound
      · exact .inl ⟨rest, (known rest).mpr found, rfl⟩
      · exact .inr ((known' _).mpr ⟨i, rest, rfl, bound, found⟩)
  · rw [List.filterMap_append, List.filterMap_map]
    rfl

namespace Enumerates

theorem of_none (h : find [] = none) (below : EnumeratesFrom 0 find items) :
    Enumerates find items := by
  obtain ⟨ps, inOrder, known, rfl⟩ := below
  refine ⟨ps, inOrder, fun p => (known p).trans ⟨?_, fun found => ?_⟩, rfl⟩
  · rintro ⟨-, -, -, -, found⟩
    exact found
  · cases p with
    | nil =>
      rw [h] at found
      cases found
    | cons i rest => exact ⟨i, rest, rfl, Nat.zero_le i, found⟩

theorem of_some (h : find [] = some a) (below : EnumeratesFrom 0 find items) :
    Enumerates find (a :: items) := by
  obtain ⟨ps, inOrder, known, rfl⟩ := below
  refine ⟨[] :: ps, List.pairwise_cons.mpr ⟨fun p member => ?_, inOrder⟩, fun p => ?_, ?_⟩
  · obtain ⟨i, rest, rfl, -⟩ := (known p).mp member
    exact List.Lex.nil
  · cases p with
    | nil => simp [h]
    | cons i rest =>
      rw [List.mem_cons, known]
      exact ⟨fun h => h.elim nofun fun ⟨_, _, _, _, found⟩ => found,
        fun found => .inr ⟨i, rest, rfl, Nat.zero_le i, found⟩⟩
  · rw [List.filterMap_cons_some h]

theorem exists_position (h : Enumerates find items) (member : a ∈ items) : ∃ p, find p = some a := by
  obtain ⟨ps, -, -, rfl⟩ := h
  obtain ⟨p, -, found⟩ := List.mem_filterMap.mp member
  exact ⟨p, found⟩

theorem unique {others : List α} (h : Enumerates find items) (h' : Enumerates find others) :
    items = others := by
  obtain ⟨ps, inOrder, known, rfl⟩ := h
  obtain ⟨qs, inOrder', known', rfl⟩ := h'
  rw [inOrder.eq_of_mem_iff inOrder' fun p => (known p).trans (known' p).symm]

end Enumerates

theorem EnumeratesFrom.cons (here : find [start] = some a)
    (bare : ∀ i rest, find (start :: i :: rest) = none)
    (behind : EnumeratesFrom (start + 1) find later) : EnumeratesFrom start find (a :: later) := by
  have this : Enumerates (fun rest => find (start :: rest)) [a] :=
    .of_some here (.nil fun i rest _ => bare i rest)
  exact .append this behind

end Enumerations

/-- The site at a position in an element: its tag, or an attribute, or a child behind the attributes. -/
def Element.siteAt? (path : NodePath) (e : Element) : List Nat → Option Site
  | [] => some ⟨path, e, .tag⟩
  | index :: rest =>
    match e.attributes.entries[index]? with
    | some a => if rest = [] then some ⟨path, e, .attr a.1 a.2⟩ else none
    | none =>
      let front := e.children.take (index - e.attributes.entries.length)
      match e.children[index - e.attributes.entries.length]? with
      | some (.element name attributes children) =>
        siteAt? (path.child (front.filterMap Node.element?).length) ⟨name, attributes, children⟩ rest
      | some (.text content) => if rest = [] then some ⟨path, e, .text content⟩ else none
      | some (.data content) => if rest = [] then some ⟨path, e, .data content⟩ else none
      | none => none

/-- The site at a position in an output. The first index counts the elements of the top level. -/
def Output.siteAt? (o : Output) : List Nat → Option Site
  | [] => none
  | index :: rest =>
    match o.elements[index]? with
    | some e => e.siteAt? (NodePath.root.child index) rest
    | none => none

namespace Element

variable {path : NodePath} {e : Element} {front back : List Node}

theorem siteAt?_attribute {index : Nat} {a : String × String}
    (h : e.attributes.entries[index]? = some a) (rest : List Nat) :
    e.siteAt? path (index :: rest) = if rest = [] then some ⟨path, e, .attr a.1 a.2⟩ else none := by
  rw [siteAt?, h]

theorem siteAt?_child {n : Node} (h : e.children = front ++ n :: back) (rest : List Nat) :
    e.siteAt? path ((e.attributes.entries.length + front.length) :: rest) =
      match n with
      | .element name attributes children =>
        siteAt? (path.child (front.filterMap Node.element?).length) ⟨name, attributes, children⟩ rest
      | .text content => if rest = [] then some ⟨path, e, .text content⟩ else none
      | .data content => if rest = [] then some ⟨path, e, .data content⟩ else none := by
  have behind : e.attributes.entries[e.attributes.entries.length + front.length]? = none :=
    List.getElem?_eq_none (Nat.le_add_right _ _)
  have child : e.children[front.length]? = some n := by simp [h]
  have before : e.children.take front.length = front := by simp [h]
  rw [siteAt?, behind]
  simp only [Nat.add_sub_cancel_left, child, before]
  cases n <;> rfl

theorem siteAt?_behind {index : Nat}
    (h : e.attributes.entries.length + e.children.length ≤ index) (rest : List Nat) :
    e.siteAt? path (index :: rest) = none := by
  have noAttribute : e.attributes.entries[index]? = none := List.getElem?_eq_none (by omega)
  have noChild : e.children[index - e.attributes.entries.length]? = none :=
    List.getElem?_eq_none (by omega)
  rw [siteAt?, noAttribute]
  simp only [noChild]

theorem enumerates_attributes {items : List Site} (done attributes : List (String × String))
    (h : e.attributes.entries = done ++ attributes)
    (below : EnumeratesFrom e.attributes.entries.length (e.siteAt? path) items) :
    EnumeratesFrom done.length (e.siteAt? path)
      (attributes.map (fun a => ⟨path, e, .attr a.1 a.2⟩) ++ items) := by
  induction attributes generalizing done with
  | nil =>
    rw [h, List.append_nil] at below
    exact below
  | cons a rest ih =>
    have known : e.attributes.entries[done.length]? = some a := by simp [h]
    have others := ih (done ++ [a]) (by simp [h])
    rw [List.length_append, List.length_singleton] at others
    rw [List.map_cons, List.cons_append]
    refine .cons ?_ (fun i below => ?_) others
    · rw [siteAt?_attribute known, if_pos rfl]
    · rw [siteAt?_attribute known, if_neg nofun]

end Element

namespace Node

mutual

theorem sites_enumerated (path : NodePath) : (n : Node) → {e : Element} → n.element? = some e →
    Enumerates (e.siteAt? path) (n.sites path)
  | .element name attributes children, e, h => by
    obtain rfl : ⟨name, attributes, children⟩ = e := Option.some.inj h
    rw [sites, Site.ofTag, List.cons_append]
    refine .of_some rfl (Element.enumerates_attributes [] attributes.entries rfl ?_)
    exact childSites_enumerated path ⟨name, attributes, children⟩ children [] rfl
  | .text _, _, h => by cases h
  | .data _, _, h => by cases h

theorem childSites_enumerated (path : NodePath) (parent : Element) : (rest front : List Node) →
    parent.children = front ++ rest →
    EnumeratesFrom (parent.attributes.entries.length + front.length) (parent.siteAt? path)
      (childSites path parent (front.filterMap element?).length rest)
  -- A position counts every child passed, a path only the elements among them.
  | [], front, h => by
    rw [childSites]
    refine .nil fun i below bound => Element.siteAt?_behind ?_ below
    rw [h, List.append_nil]
    exact bound
  | .element name attributes children :: rest, front, h => by
    have others := childSites_enumerated path parent rest
      (front ++ [.element name attributes children]) (by simp [h])
    have inside := sites_enumerated (path.child (front.filterMap element?).length)
      (.element name attributes children) rfl
    rw [childSites]
    refine .append ?_ (by simpa [element?, Nat.add_assoc] using others)
    simp only [Element.siteAt?_child h]
    exact inside
  | .text content :: rest, front, h => by
    have others := childSites_enumerated path parent rest (front ++ [.text content]) (by simp [h])
    rw [childSites]
    refine .cons ?_ (fun i below => ?_)
      (by simpa [element?, List.filterMap_cons, Nat.add_assoc] using others)
    · rw [Element.siteAt?_child h]; exact if_pos rfl
    · rw [Element.siteAt?_child h]; exact if_neg nofun
  | .data content :: rest, front, h => by
    have others := childSites_enumerated path parent rest (front ++ [.data content]) (by simp [h])
    rw [childSites]
    refine .cons ?_ (fun i below => ?_)
      (by simpa [element?, List.filterMap_cons, Nat.add_assoc] using others)
    · rw [Element.siteAt?_child h]; exact if_pos rfl
    · rw [Element.siteAt?_child h]; exact if_neg nofun

end

end Node

namespace Output

variable {o : Output}

theorem sitesFrom_enumerated (done elements : List Element) (h : o.elements = done ++ elements) :
    EnumeratesFrom done.length o.siteAt? (sitesFrom done.length elements) := by
  induction elements generalizing done with
  | nil =>
    refine .nil fun i rest bound => ?_
    have behind : o.elements[i]? = none := List.getElem?_eq_none (by simpa [h] using bound)
    rw [siteAt?, behind]
  | cons e rest ih =>
    have known : o.elements[done.length]? = some e := by simp [h]
    have others := ih (done ++ [e]) (by simp [h])
    rw [List.length_append, List.length_singleton] at others
    have inside := Node.sites_enumerated (NodePath.root.child done.length) e.toNode rfl
    refine .append ?_ others
    simpa only [siteAt?, known] using inside

theorem sites_enumerated (o : Output) : Enumerates o.siteAt? o.sites :=
  .of_none rfl (sitesFrom_enumerated [] o.elements rfl)

end Output

theorem Element.follow_of_siteAt? {path : NodePath} {e : Element} {position : List Nat} {s : Site}
    (h : e.siteAt? path position = some s) : ∃ below, s.path.indices = path.indices ++ below ∧
      NodePath.follow e below = some s.element := by
  induction position generalizing path e with
  | nil =>
    cases h
    exact ⟨[], (List.append_nil _).symm, rfl⟩
  | cons index rest ih =>
    have here {content : SiteContent}
        (h : (if rest = [] then some (⟨path, e, content⟩ : Site) else none) = some s) :
        ∃ below, s.path.indices = path.indices ++ below ∧
          NodePath.follow e below = some s.element := by
      obtain ⟨-, same⟩ := Option.ite_none_right_eq_some.mp h
      cases same
      exact ⟨[], (List.append_nil _).symm, rfl⟩
    rw [siteAt?] at h
    split at h
    · exact here h
    · simp only at h
      split at h
      · rename_i name attributes children child
        obtain ⟨below, deeper, found⟩ := ih h
        refine ⟨_ :: below, by simpa [NodePath.child] using deeper, ?_⟩
        obtain ⟨bound, this⟩ := List.getElem?_eq_some_iff.mp child
        have split := List.take_append_drop (index - e.attributes.entries.length) e.children
        rw [List.drop_eq_getElem_cons bound, this] at split
        have known : e.childElements[((e.children.take
            (index - e.attributes.entries.length)).filterMap Node.element?).length]? =
              some ⟨name, attributes, children⟩ := by
          rw [childElements]
          nth_rewrite 1 [← split]
          simp [Node.element?]
        rw [NodePath.follow, known]
        exact found
      · exact here h
      · exact here h
      · cases h

namespace Output

variable {o : Output} {s : Site}

theorem resolve_of_mem_sites (member : s ∈ o.sites) : s.path.resolve o = some s.element := by
  obtain ⟨position, found⟩ := o.sites_enumerated.exists_position member
  cases position with
  | nil => cases found
  | cons index rest =>
    rw [siteAt?] at found
    split at found
    · rename_i e known
      obtain ⟨below, indices, leads⟩ := Element.follow_of_siteAt? found
      have whole : s.path.indices = index :: below := indices
      rw [NodePath.resolve, whole, NodePath.locate, known]
      exact leads
    · cases found

end Output

end TaintScan
