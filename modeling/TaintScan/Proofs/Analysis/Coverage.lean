import TaintScan.Proofs.Analysis.FirstMatch
import TaintScan.Proofs.Document.SingleDifference

namespace TaintScan

/-- A child of an element as the content of a site. An element is a site of its own. -/
def Node.siteContent? : Node → Option SiteContent
  | .element _ _ _ => none
  | .text content => some (.text content)
  | .data content => some (.data content)

def Element.tagContents (e : Element) : List SiteContent :=
  .tag :: e.attributes.entries.map fun a => .attr a.1 a.2

/-- What can be looked at in an element: its tag, its attributes, its text and its data. -/
def Element.contents (e : Element) : List SiteContent :=
  e.tagContents ++ e.children.filterMap Node.siteContent?

variable {e : Element} {content : SiteContent}

theorem Element.text_mem_contents {text : String} :
    .text text ∈ e.contents ↔ .text text ∈ e.children := by
  simp only [contents, tagContents, List.mem_append, List.mem_cons, List.mem_map,
    List.mem_filterMap]
  constructor
  · rintro ((tag | ⟨a, -, same⟩) | ⟨child, member, same⟩)
    · cases tag
    · cases same
    · cases child <;> cases same
      exact member
  · intro member
    exact .inr ⟨_, member, rfl⟩

theorem Site.exists_mem_ofTag {path : NodePath} {parent : Element} :
    (∃ place, ⟨place, e, content⟩ ∈ ofTag path parent) ↔
      e = parent ∧ content ∈ parent.tagContents := by
  simp only [ofTag, Element.tagContents, List.mem_cons, List.mem_map, mk.injEq]
  constructor
  · rintro ⟨place, ⟨-, rfl, rfl⟩ | ⟨a, member, -, rfl, rfl⟩⟩
    · exact ⟨rfl, .inl rfl⟩
    · exact ⟨rfl, .inr ⟨a, member, rfl⟩⟩
  · rintro ⟨rfl, rfl | ⟨a, member, rfl⟩⟩
    · exact ⟨path, .inl ⟨rfl, rfl, rfl⟩⟩
    · exact ⟨path, .inr ⟨a, member, rfl, rfl, rfl⟩⟩

namespace Node

mutual

theorem exists_mem_sites (path : NodePath) : (n : Node) →
    ((∃ place, ⟨place, e, content⟩ ∈ n.sites path) ↔ e ∈ n.elementsIn ∧ content ∈ e.contents)
  | .element name attributes children => by
    have below := exists_mem_childSites path ⟨name, attributes, children⟩ 0 children
    simp only [sites, List.mem_append, exists_or, Site.exists_mem_ofTag, below, elementsIn,
      List.mem_cons]
    -- The parent holds what is in its tag and what is among its children.
    constructor
    · rintro (⟨rfl, inTag⟩ | ⟨rfl, inside⟩ | ⟨deeper, held⟩)
      · exact ⟨.inl rfl, List.mem_append_left _ inTag⟩
      · exact ⟨.inl rfl, List.mem_append_right _ inside⟩
      · exact ⟨.inr deeper, held⟩
    · rintro ⟨rfl | deeper, held⟩
      · rcases List.mem_append.mp held with inTag | inside
        · exact .inl ⟨rfl, inTag⟩
        · exact .inr (.inl ⟨rfl, inside⟩)
      · exact .inr (.inr ⟨deeper, held⟩)
  | .text _ => by simp [sites, elementsIn]
  | .data _ => by simp [sites, elementsIn]

theorem exists_mem_childSites (path : NodePath) (parent : Element) (index : Nat) :
    (nodes : List Node) → ((∃ place, ⟨place, e, content⟩ ∈ childSites path parent index nodes) ↔
      (e = parent ∧ content ∈ nodes.filterMap siteContent?) ∨
        (e ∈ elementsInAll nodes ∧ content ∈ e.contents))
  | [] => by simp [childSites, elementsInAll]
  | .element name attributes children :: rest => by
    have first := exists_mem_sites (path.child index) (.element name attributes children)
    have others := exists_mem_childSites path parent (index + 1) rest
    simp only [childSites, List.mem_append, exists_or, first, others, elementsInAll,
      List.filterMap_cons, siteContent?, or_and_right]
    exact or_left_comm
  | .text s :: rest => by
    have others := exists_mem_childSites path parent index rest
    simp only [childSites, List.mem_cons, exists_or, Site.mk.injEq, exists_eq_left, others,
      elementsInAll, elementsIn, List.nil_append, List.filterMap_cons, siteContent?, and_or_left,
      or_assoc]
  | .data s :: rest => by
    have others := exists_mem_childSites path parent index rest
    simp only [childSites, List.mem_cons, exists_or, Site.mk.injEq, exists_eq_left, others,
      elementsInAll, elementsIn, List.nil_append, List.filterMap_cons, siteContent?, and_or_left,
      or_assoc]

end

end Node

namespace Output

theorem exists_mem_sitesFrom (index : Nat) (nodes : List Node) :
    (∃ place, ⟨place, e, content⟩ ∈ sitesFrom index (nodes.filterMap Node.element?)) ↔
      e ∈ Node.elementsInAll nodes ∧ content ∈ e.contents := by
  induction nodes generalizing index with
  | nil => simp [sitesFrom, Node.elementsInAll]
  | cons n rest ih =>
    cases n with
    | element name attributes children =>
      have first : (∃ place, ⟨place, e, content⟩ ∈
          Node.sites (NodePath.root.child index) (.element name attributes children)) ↔ _ :=
        Node.exists_mem_sites _ _
      simp only [List.filterMap_cons, Node.element?, sitesFrom, Element.toNode, List.mem_append,
        exists_or, first, ih, Node.elementsInAll, or_and_right]
    | text _ =>
      simpa [List.filterMap_cons, Node.element?, Node.elementsInAll, Node.elementsIn] using ih index
    | data _ =>
      simpa [List.filterMap_cons, Node.element?, Node.elementsInAll, Node.elementsIn] using ih index

theorem exists_mem_sites (o : Output) :
    (∃ place, ⟨place, e, content⟩ ∈ o.sites) ↔
      e ∈ Node.elementsInAll o.nodes ∧ content ∈ e.contents :=
  exists_mem_sitesFrom 0 o.nodes

end Output

namespace Engine

/-- A value of a generation rule has its token in a text, and attacker input reaches its object. -/
def Tracks (schema : Schema) (ledger : Ledger) (rule : RuleId) (text : String) : Prop :=
  ∃ v ∈ ledger.toList, v.rule = rule ∧
    (∃ token, v.marker = some token ∧ token.toList <:+: text.toList) ∧
    ∃ object, schema.object v.object = .ok object ∧ object.isUserModifiable = true

variable {settings : AnalyzerSettings} {o : Output} {schema : Schema} {ledger : Ledger}
  {marker : Marker}

theorem exists_detection_iff {r : Rule} {rule : RuleId} :
    (∃ d ∈ (standard settings).analyze o schema ledger marker,
      d.analyzerRule = r.id ∧ d.rule = rule) ↔
    ∃ s ∈ o.sites, r.category = s.category ∧ r.isApplicable s settings = true ∧
      ∃ text, r.probe s = some text ∧ Tracks schema ledger rule text := by
  constructor
  · rintro ⟨d, detected, byRule, forRule⟩
    rcases exists_makes detected with ⟨q, s, v, makes⟩
    rcases makes.hit with ⟨⟨token, text, marked, looked, inside⟩, reached⟩
    have made := makes.made
    obtain rfl : q = r := Rule.id_injective (by rw [← byRule, ← made]; rfl)
    have named : v.rule = rule := by rw [← forRule, ← made]; rfl
    exact ⟨s, makes.site, makes.category, makes.applies, text, looked,
      v, makes.listed, named, ⟨token, marked, inside⟩, reached⟩
  · rintro ⟨s, site, category, applies, text, looked, v, listed, named, ⟨token, marked, inside⟩,
      reached⟩
    let ctx : Context := ⟨schema, ledger, marker, settings⟩
    have hit : ctx.Hits r s v := ⟨⟨token, text, marked, looked, inside⟩, reached⟩
    have made : ctx.detection r s v ∈ o.sites.flatMap ctx.hitsAt :=
      List.mem_flatMap.mpr ⟨s, site, Context.mem_hitsAt.mpr
        ⟨r, v, category, applies, listed, hit, rfl⟩⟩
    have found : ((standard settings).analyze o schema ledger marker).find?
        (fun d => keyOf d = (r.id, rule)) ≠ none := by
      rw [analyze_standard, find?_firstOfEach List.not_mem_nil]
      intro absent
      have differs := List.find?_eq_none.mp absent _ made
      exact differs (decide_eq_true (congrArg (r.id, ·) named))
    rcases Option.ne_none_iff_exists'.mp found with ⟨d, first⟩
    have key : keyOf d = (r.id, rule) := by simpa using List.find?_some first
    exact ⟨d, List.mem_of_find?_eq_some first, congrArg Prod.fst key, congrArg Prod.snd key⟩

theorem unescapedText_attacks_iff {s : Site} :
    (Rule.unescapedText.category = s.category ∧ Rule.unescapedText.isApplicable s settings = true) ↔
      ∃ text, s.content = .text text := by
  rcases s with ⟨path, e, _ | _ | _ | _⟩ <;> simp [Rule.category, Site.category, Rule.isApplicable]

variable (settings o schema ledger marker)

/-- Text is detected for a generation rule exactly when some element of the output, at any depth,
has a child text in which a value of the rule is tracked. Text of the top level belongs to no
element, and so is none of these. -/
theorem analyze_covers_text (rule : RuleId) :
    (∃ d ∈ (standard settings).analyze o schema ledger marker,
      d.analyzerRule = Rule.unescapedText.id ∧ d.rule = rule) ↔
    ∃ e ∈ Node.elementsInAll o.nodes, ∃ text, .text text ∈ e.children ∧
      Tracks schema ledger rule text := by
  rw [exists_detection_iff]
  constructor
  · rintro ⟨⟨path, e, content⟩, site, category, applies, text, looked, tracked⟩
    rcases unescapedText_attacks_iff.mp ⟨category, applies⟩ with ⟨seen, rfl⟩
    cases looked
    have held := (Output.exists_mem_sites o).mp ⟨path, site⟩
    exact ⟨e, held.1, text, Element.text_mem_contents.mp held.2, tracked⟩
  · rintro ⟨e, inside, text, child, tracked⟩
    rcases (Output.exists_mem_sites o).mpr ⟨inside, Element.text_mem_contents.mpr child⟩ with
      ⟨path, site⟩
    rcases unescapedText_attacks_iff.mpr
      ⟨text, (rfl : Site.content ⟨path, e, .text text⟩ = .text text)⟩ with ⟨category, applies⟩
    exact ⟨_, site, category, applies, text, rfl, tracked⟩

section Trial

open Document (trialSchema trialMarker trialRule trialObject)

theorem top_level_text_not_covered :
    ¬ ∀ (settings : AnalyzerSettings) (o : Output) (schema : Schema) (ledger : Ledger)
      (marker : Marker) (rule : RuleId) (text : String),
      (.text text ∈ o.nodes ∨ ∃ e ∈ Node.elementsInAll o.nodes, .text text ∈ e.children) →
      Tracks schema ledger rule text →
      ∃ d ∈ (standard settings).analyze o schema ledger marker,
        d.analyzerRule = Rule.unescapedText.id ∧ d.rule = rule := by
  intro claimed
  let v : Descriptor := ⟨trialObject 1, trialRule 11, "zqabcdef", false, some "zqabcdef"⟩
  have tracked : Tracks trialSchema (.ofList [v]) (trialRule 11) "zqabcdef" :=
    ⟨v, by simp [Ledger.ofList, Ledger.record, Ledger.empty, Ledger.toList], rfl,
      ⟨_, rfl, List.infix_rfl⟩, _, rfl, rfl⟩
  rcases claimed .standard ⟨[.text "zqabcdef"]⟩ trialSchema (.ofList [v]) trialMarker (trialRule 11)
    "zqabcdef" (.inl List.mem_cons_self) tracked with ⟨d, detected, -⟩
  cases detected

end Trial

end Engine

end TaintScan
