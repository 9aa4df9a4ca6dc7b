import TaintScan.Proofs.Analysis.Coverage
import TaintScan.Proofs.Analysis.DocumentOrder

namespace TaintScan

def Site.visit? (s : Site) : Option (NodePath × Element) :=
  match s.content with
  | .tag => some (s.path, s.element)
  | _ => none

/-- The elements whose tags are among sites, in their order. -/
def visitsOf (sites : List Site) : List (NodePath × Element) := sites.filterMap Site.visit?

section Visits

variable {path : NodePath} {e : Element} {sites : List Site}

theorem visitsOf_append (first later : List Site) :
    visitsOf (first ++ later) = visitsOf first ++ visitsOf later :=
  List.filterMap_append

theorem visitsOf_ofTag (path : NodePath) (e : Element) : visitsOf (Site.ofTag path e) = [(path, e)] := by
  have others : visitsOf (e.attributes.entries.map fun a => ⟨path, e, .attr a.1 a.2⟩) = [] := by
    rw [visitsOf, List.filterMap_map, List.filterMap_eq_nil_iff]
    intro a _
    rfl
  exact congrArg ((path, e) :: ·) others

theorem mem_visitsOf : (path, e) ∈ visitsOf sites ↔ ⟨path, e, .tag⟩ ∈ sites := by
  rw [visitsOf, List.mem_filterMap]
  constructor
  · rintro ⟨⟨_, _, _ | _ | _ | _⟩, member, kept⟩ <;> cases kept
    exact member
  · intro member
    exact ⟨_, member, rfl⟩

end Visits

namespace Node

mutual

theorem elements_visited (path : NodePath) : (n : Node) →
    (visitsOf (n.sites path)).map Prod.snd = n.elementsIn
  | .element name attributes children => by
    have below := elements_visited_below path ⟨name, attributes, children⟩ 0 children
    rw [sites, visitsOf_append, visitsOf_ofTag, List.map_append, below, elementsIn]
    rfl
  | .text _ => rfl
  | .data _ => rfl

theorem elements_visited_below (path : NodePath) (parent : Element) (index : Nat) :
    (nodes : List Node) →
      (visitsOf (childSites path parent index nodes)).map Prod.snd = elementsInAll nodes
  | [] => rfl
  | .element name attributes children :: rest => by
    have first := elements_visited (path.child index) (.element name attributes children)
    have others := elements_visited_below path parent (index + 1) rest
    rw [childSites, visitsOf_append, List.map_append, first, others, elementsInAll]
  | .text _ :: rest => elements_visited_below path parent index rest
  | .data _ :: rest => elements_visited_below path parent index rest

end

end Node

/-- Paths in document order, all of which go on behind a front with an index or with a later one. -/
structure Ascends (front : List Nat) (start : Nat) (paths : List (List Nat)) : Prop where
  inOrder : paths.Pairwise (· < ·)
  behind : ∀ p ∈ paths, ∃ i rest, p = front ++ i :: rest ∧ start ≤ i

namespace Ascends

variable {front : List Nat} {start : Nat} {here later : List (List Nat)}

theorem nil : Ascends front start [] := ⟨List.Pairwise.nil, nofun⟩

theorem append (inOrder : here.Pairwise (· < ·)) (under : ∀ p ∈ here, front ++ [start] <+: p)
    (others : Ascends front (start + 1) later) : Ascends front start (here ++ later) := by
  have goesOn : ∀ p ∈ here, ∃ rest, p = front ++ start :: rest := by
    intro p member
    rcases under p member with ⟨rest, rfl⟩
    exact ⟨rest, by rw [List.append_assoc, List.singleton_append]⟩
  constructor
  · apply List.pairwise_append.mpr ⟨inOrder, others.inOrder, ?_⟩
    intro p member q member'
    rcases goesOn p member with ⟨rest, rfl⟩
    rcases others.behind q member' with ⟨i, rest', rfl, bound⟩
    exact List.append_left_lt (List.Lex.rel bound)
  · intro p member
    rcases List.mem_append.mp member with member | member
    · rcases goesOn p member with ⟨rest, rfl⟩
      exact ⟨start, rest, rfl, le_rfl⟩
    · rcases others.behind p member with ⟨i, rest, rfl, bound⟩
      exact ⟨i, rest, rfl, Nat.le_of_succ_le bound⟩

theorem cons (ascends : Ascends front start later) : (front :: later).Pairwise (· < ·) := by
  apply List.pairwise_cons.mpr ⟨?_, ascends.inOrder⟩
  intro p member
  rcases ascends.behind p member with ⟨i, rest, rfl, -⟩
  have longer : front ++ [] < front ++ i :: rest := List.append_left_lt List.Lex.nil
  rwa [List.append_nil] at longer

end Ascends

/-- The indices of the paths under which elements are visited. -/
def visitedPaths (sites : List Site) : List (List Nat) := (visitsOf sites).map fun v => v.1.indices

theorem visitedPaths_append (first later : List Site) :
    visitedPaths (first ++ later) = visitedPaths first ++ visitedPaths later := by
  rw [visitedPaths, visitsOf_append, List.map_append]
  rfl

namespace Node

theorem visitedPaths_element (path : NodePath) (name : String) (attributes : OrderedMap String String)
    (children : List Node) : visitedPaths ((element name attributes children).sites path) =
      path.indices :: visitedPaths (childSites path ⟨name, attributes, children⟩ 0 children) := by
  rw [sites, visitedPaths_append, visitedPaths, visitsOf_ofTag]
  rfl

mutual

theorem paths_ascend (path : NodePath) : (n : Node) →
    (visitedPaths (n.sites path)).Pairwise (· < ·) ∧
      ∀ p ∈ visitedPaths (n.sites path), path.indices <+: p
  | .element name attributes children => by
    have below := paths_ascend_below path ⟨name, attributes, children⟩ 0 children
    rw [visitedPaths_element]
    refine ⟨below.cons, List.forall_mem_cons.mpr ⟨List.prefix_rfl, ?_⟩⟩
    intro p member
    rcases below.behind p member with ⟨i, rest, rfl, -⟩
    exact List.prefix_append _ _
  | .text _ => ⟨List.Pairwise.nil, nofun⟩
  | .data _ => ⟨List.Pairwise.nil, nofun⟩

theorem paths_ascend_below (path : NodePath) (parent : Element) (index : Nat) : (nodes : List Node) →
    Ascends path.indices index (visitedPaths (childSites path parent index nodes))
  | [] => .nil
  | .element name attributes children :: rest => by
    rcases paths_ascend (path.child index) (.element name attributes children) with ⟨inOrder, under⟩
    rw [childSites, visitedPaths_append]
    exact .append inOrder under (paths_ascend_below path parent (index + 1) rest)
  | .text _ :: rest => paths_ascend_below path parent index rest
  | .data _ :: rest => paths_ascend_below path parent index rest

end

theorem mem_childSites {path : NodePath} {parent e : Element} {start index : Nat} {nodes : List Node}
    {s : Site} (known : (nodes.filterMap element?)[index]? = some e)
    (inside : s ∈ e.toNode.sites (path.child (start + index))) :
    s ∈ childSites path parent start nodes := by
  induction nodes generalizing start index with
  | nil => cases known
  | cons n rest ih =>
    cases n with
    | text _ => exact List.mem_cons_of_mem _ (ih known inside)
    | data _ => exact List.mem_cons_of_mem _ (ih known inside)
    | element name attributes children =>
      rw [childSites, List.mem_append]
      cases index with
      | zero =>
        cases known
        exact .inl inside
      | succ index =>
        have next : start + (index + 1) = start + 1 + index := by omega
        rw [next] at inside
        exact .inr (ih known inside)

theorem tag_mem_sites {path : NodePath} {e found : Element} {below : List Nat}
    (leads : NodePath.follow e below = some found) :
    ⟨⟨path.indices ++ below⟩, found, .tag⟩ ∈ e.toNode.sites path := by
  induction below generalizing path e with
  | nil =>
    cases leads
    rw [List.append_nil]
    exact List.mem_append_left _ List.mem_cons_self
  | cons index rest ih =>
    rw [NodePath.follow] at leads
    split at leads
    · rename_i child known
      have inside := @ih (path.child (0 + index)) _ leads
      rw [Nat.zero_add, NodePath.child, List.append_assoc, List.singleton_append] at inside
      exact List.mem_append_right _ (mem_childSites known (by rwa [Nat.zero_add]))
    · cases leads

end Node

namespace Output

variable {o : Output}

theorem elements_visited_from (index : Nat) (nodes : List Node) :
    (visitsOf (sitesFrom index (nodes.filterMap Node.element?))).map Prod.snd =
      Node.elementsInAll nodes := by
  induction nodes generalizing index with
  | nil => rfl
  | cons n rest ih =>
    cases n with
    | text _ => exact ih index
    | data _ => exact ih index
    | element name attributes children =>
      have first := Node.elements_visited (NodePath.root.child index) (.element name attributes children)
      have known : (Node.element name attributes children).element? = some ⟨name, attributes, children⟩ :=
        rfl
      rw [List.filterMap_cons_some known, sitesFrom, visitsOf_append, List.map_append, ih,
        Node.elementsInAll, ← first]
      rfl

theorem paths_ascend_from (index : Nat) (elements : List Element) :
    Ascends [] index (visitedPaths (sitesFrom index elements)) := by
  induction elements generalizing index with
  | nil => exact .nil
  | cons e rest ih =>
    rcases Node.paths_ascend (NodePath.root.child index) e.toNode with ⟨inOrder, under⟩
    rw [sitesFrom, visitedPaths_append]
    exact .append inOrder under (ih (index + 1))

theorem mem_sitesFrom {start index : Nat} {elements : List Element} {e : Element} {s : Site}
    (known : elements[index]? = some e)
    (inside : s ∈ e.toNode.sites (NodePath.root.child (start + index))) :
    s ∈ sitesFrom start elements := by
  induction elements generalizing start index with
  | nil => cases known
  | cons first rest ih =>
    rw [sitesFrom, List.mem_append]
    cases index with
    | zero =>
      cases known
      exact .inl inside
    | succ index =>
      have next : start + (index + 1) = start + 1 + index := by omega
      rw [next] at inside
      exact .inr (ih known inside)

theorem tag_mem_sites_iff {p : NodePath} {e : Element} :
    ⟨p, e, .tag⟩ ∈ o.sites ↔ p.resolve o = some e := by
  constructor
  · intro member
    exact resolve_of_mem_sites member
  · intro leads
    rcases p with ⟨_ | ⟨index, below⟩⟩
    · cases leads
    · rw [NodePath.resolve, NodePath.locate] at leads
      split at leads
      · rename_i first known
        apply mem_sitesFrom known
        rw [Nat.zero_add]
        exact @Node.tag_mem_sites (NodePath.root.child index) _ _ _ leads
      · cases leads

end Output

namespace NodePath

/-- A step of a path as it is shown: the name of the element that the indices up to it lead to. -/
def shownStep (o : Output) (indices : List Nat) (step index : Nat) : String :=
  "/" ++ (locate o (indices.take (step + 1))).elim "*" Element.name ++ "[" ++ indexText index ++ "]"

theorem stepText_eq (found : Option Element) (index : Nat) :
    stepText found index = "/" ++ found.elim "*" Element.name ++ "[" ++ indexText index ++ "]" := by
  cases found <;> rfl

theorem locate_cons (o : Output) (index : Nat) (rest : List Nat) :
    locate o (index :: rest) = o.elements[index]?.bind fun e => follow e rest := by
  rw [locate]
  cases o.elements[index]? <;> rfl

-- What is below an element is located as in an output of its children; below nothing, as in none.
theorem describeSteps_eq (o : Output) (indices : List Nat) :
    describeSteps o.elements indices = String.join (indices.mapIdx (shownStep o indices)) := by
  induction indices generalizing o with
  | nil => rfl
  | cons index rest ih =>
    have first : stepText o.elements[index]? index = shownStep o (index :: rest) 0 index := by
      rw [stepText_eq, shownStep, List.take_succ_cons, List.take_zero, locate_cons]
      cases o.elements[index]? <;> rfl
    have below (o' : Output) (same : ∀ next more, locate o' (next :: more) =
        locate o (index :: next :: more)) : describeSteps o'.elements rest =
          String.join (rest.mapIdx fun step => shownStep o (index :: rest) (step + 1)) := by
      rw [ih o']
      cases rest with
      | nil => rfl
      | cons next more =>
        congr 2
        funext step i
        rw [shownStep, shownStep, List.take_succ_cons, List.take_succ_cons, List.take_succ_cons, same]
    rw [List.mapIdx_cons, String.join_cons, describeSteps, first]
    congr 1
    cases found : o.elements[index]? with
    | some e =>
      apply below ⟨e.children⟩
      intro next more
      rw [locate_cons o, found]
      rfl
    | none =>
      apply below ⟨[]⟩
      intro next more
      rw [locate_cons o, found]
      rfl

theorem describe_eq (p : NodePath) (o : Output) : p.describe o =
    if p.indices = [] then "/" else String.join (p.indices.mapIdx (shownStep o p.indices)) := by
  rw [describe, describeSteps_eq]
  simp only [List.isEmpty_iff]

end NodePath

namespace Engine

/-- Each element of an output is visited once and in order, under the path that leads to it. So is
all that stands in an element, and a request keeps a path and the attributes of the element at its
end. A path is described index by index. -/
theorem paths_relocate (o : Output) :
    (visitsOf o.sites).map Prod.snd = Node.elementsInAll o.nodes ∧
      (visitedPaths o.sites).Pairwise (· < ·) ∧
      (∀ p e, (p, e) ∈ visitsOf o.sites ↔ p.resolve o = some e) ∧
      (∀ s ∈ o.sites, s.path.resolve o = some s.element ∧ s.content ∈ s.element.contents) ∧
      (∀ (engine : Engine) (schema : Schema) (ledger : Ledger) (marker : Marker),
        ∀ d ∈ engine.analyze o schema ledger marker, ∃ e, d.payload.path.resolve o = some e ∧
          e.attributes.keys = d.payload.baselineAttributes) ∧
      ∀ p : NodePath, p.describe o = if p.indices = [] then "/" else
        String.join (p.indices.mapIdx fun step index =>
          "/" ++ (NodePath.locate o (p.indices.take (step + 1))).elim "*" Element.name ++
            "[" ++ NodePath.indexText index ++ "]") := by
  refine ⟨Output.elements_visited_from 0 o.nodes, (Output.paths_ascend_from 0 o.elements).inOrder,
    fun p e => mem_visitsOf.trans Output.tag_mem_sites_iff, ?_, ?_, fun p => p.describe_eq o⟩
  · intro s site
    have held := (Output.exists_mem_sites o).mp ⟨s.path, site⟩
    exact ⟨Output.resolve_of_mem_sites site, held.2⟩
  · intro engine schema ledger marker d detected
    rcases exists_detection detected with ⟨r, -, s, site, v, -, rfl⟩
    exact ⟨s.element, Output.resolve_of_mem_sites site, rfl⟩

section Interleaved

open Document (trialSchema trialMarker trialRule trialObject)

def interleaved : Output :=
  ⟨[.text "a", .element "html" .empty [.text "b", .element "zqabcdef" .empty [], .data "c"]]⟩

def interleavedLedger : Ledger :=
  .ofList [⟨trialObject 2, trialRule 11, "zqabcdef", false, some "zqabcdef"⟩]

theorem paths_relocate_interleaved :
    (∃ s ∈ interleaved.sites, s.content = .text "b" ∧ s.path.resolve interleaved = some s.element ∧
      s.content ∈ s.element.contents) ∧
    ∃ d ∈ (standard .standard).analyze interleaved trialSchema interleavedLedger trialMarker,
      ∃ e, d.payload.path.resolve interleaved = some e ∧
        e.attributes.keys = d.payload.baselineAttributes := by
  rcases paths_relocate interleaved with ⟨-, -, -, sites, requests, -⟩
  have detects : (standard .standard).analyze interleaved trialSchema interleavedLedger trialMarker ≠
      [] := by decide +kernel
  rcases List.exists_mem_of_ne_nil _ detects with ⟨d, detected⟩
  have site : ⟨⟨[0]⟩, ⟨"html", .empty, [.text "b", .element "zqabcdef" .empty [], .data "c"]⟩,
      .text "b"⟩ ∈ interleaved.sites := .tail _ (.head _)
  exact ⟨⟨_, site, rfl, sites _ site⟩, d, detected, requests _ _ _ _ d detected⟩

end Interleaved

end Engine

end TaintScan
