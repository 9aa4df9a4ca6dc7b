import TaintScan.Proofs.Analysis.FirstMatch
import TaintScan.Proofs.Analysis.Verification
import TaintScan.Proofs.Document.SingleDifference
import TaintScan.Proofs.Markup.Balance
import TaintScan.Proofs.Output.Editing
import TaintScan.Proofs.Uri.Plain

namespace TaintScan

namespace Text

def Substitutes (token replacement old new : String) : Prop :=
  ∃ first second rest, old = token.intercalate (first :: second :: rest) ∧
    new = replacement.intercalate (first :: second :: rest)

theorem Substitutes.infix {token replacement old new : String}
    (h : Substitutes token replacement old new) : replacement.toList <:+: new.toList := by
  obtain ⟨first, second, rest, -, rfl⟩ := h
  rw [String.intercalate_cons_cons, String.toList_append, String.toList_append]
  exact List.infix_append _ _ _

theorem toList_append_append (a b c : String) :
    (a ++ b ++ c).toList = a.toList ++ (b.toList ++ c.toList) := by
  rw [String.toList_append, String.toList_append, List.append_assoc]

theorem sameIgnoringCase_iff {a b : String} :
    sameIgnoringCase a b = true ↔ lowerCase a.toList = lowerCase b.toList := beq_iff_eq

theorem sameIgnoringCase_refl (a : String) : sameIgnoringCase a a = true :=
  sameIgnoringCase_iff.mpr rfl

end Text

namespace Element

structure Rewrites (e : Element) (name value name' value' : String) (e' : Element) : Prop where
  attributes : ∃ front back, e.attributes.entries = front ++ (name, value) :: back ∧
    e'.attributes.entries = front ++ (name', value') :: back
  name : e'.name = e.name
  children : e'.children = e.children

def OnlyNamed (e : Element) (name : String) : Prop :=
  ∀ known ∈ e.attributes.keys, Text.sameIgnoringCase known name = true → known = name

variable {e e' : Element} {name name' value value' looked : String}

theorem attr?_of_split {front back : List (String × String)}
    (entries : e.attributes.entries = front ++ (name, value) :: back)
    (unlike : ∀ a ∈ front, Text.sameIgnoringCase a.1 looked = false)
    (like : Text.sameIgnoringCase name looked = true) : e.attr? looked = some value := by
  have none : (front.find? fun a => Text.sameIgnoringCase a.1 looked) = none :=
    List.find?_eq_none.mpr fun a member => by rw [unlike a member]; exact Bool.false_ne_true
  rw [attr?, entries, List.find?_append, none, Option.none_or, List.find?_cons]
  simp only [like]
  rfl

theorem Rewrites.attr?_value (h : e.Rewrites name value name value' e') (only : e.OnlyNamed name)
    (like : Text.sameIgnoringCase name looked = true) : e'.attr? looked = some value' := by
  obtain ⟨front, back, old, new⟩ := h.attributes
  -- An attribute in front with a name like it would be the same attribute, and names are distinct.
  refine attr?_of_split new (fun a member => Bool.eq_false_iff.mpr fun same => ?_) like
  have alike : Text.sameIgnoringCase a.1 name = true :=
    Text.sameIgnoringCase_iff.mpr
      ((Text.sameIgnoringCase_iff.mp same).trans (Text.sameIgnoringCase_iff.mp like).symm)
  have known : a.1 ∈ e.attributes.keys := by
    rw [OrderedMap.keys, old]
    exact List.mem_map_of_mem (List.mem_append_left _ member)
  have distinct := e.attributes.distinct
  rw [old, List.map_append, List.map_cons] at distinct
  have apart := (List.nodup_append.mp distinct).2.2 a.1 (List.mem_map_of_mem member)
  exact apart name List.mem_cons_self (only a.1 known alike)

theorem Rewrites.attr?_name (h : e.Rewrites name value name' value e')
    (new : e.attr? name' = none) : e'.attr? name' = some value := by
  obtain ⟨front, back, old, rewritten⟩ := h.attributes
  refine attr?_of_split rewritten (fun a member => ?_) (Text.sameIgnoringCase_refl name')
  apply attr?_eq_none_iff.mp new
  rw [OrderedMap.keys, old]
  exact List.mem_map_of_mem (List.mem_append_left _ member)

theorem infix_ownText {content : String} (child : .data content ∈ e.children) :
    content.toList <:+: e.ownText.toList := by
  have listed : content ∈ e.children.filterMap Node.content? := List.mem_filterMap.mpr ⟨_, child, rfl⟩
  obtain ⟨front, back, split⟩ := List.append_of_mem listed
  rw [ownText, split, String.join_append, String.join_cons, String.toList_append, String.toList_append]
  exact ⟨_, _, List.append_assoc _ _ _⟩

end Element

theorem Node.mem_elementsInAll {n : Node} {e : Element} {nodes : List Node} (child : n ∈ nodes)
    (inside : e ∈ elementsIn n) : e ∈ elementsInAll nodes := by
  induction nodes with
  | nil => cases child
  | cons first rest ih =>
    rw [elementsInAll]
    rcases List.mem_cons.mp child with rfl | later
    · exact List.mem_append_left _ inside
    · exact List.mem_append_right _ (ih later)

namespace Engine

/-- The element of a site echoes the payload of a rule there: the token, or what it named, is
replaced. -/
inductive Echoes (token : String) (p : Payload) (e : Element) : Rule → SiteContent → Element → Prop
  | inAttribute {r name value value' e'} (rule : r = .eventHandler ∨ r = .styleAttribute)
      (only : e.OnlyNamed name) (echoed : Text.Substitutes token p.replacement value value')
      (rewrites : e.Rewrites name value name value' e') : Echoes token p e r (.attr name value) e'
  | asAttribute {r name value e'} (rule : r = .stylesheetLink ∨ r = .urlAttribute)
      (only : e.OnlyNamed name) (whole : Text.trim value.toList = token.toList)
      (rewrites : e.Rewrites name value name p.replacement e') :
      Echoes token p e r (.attr name value) e'
  | inData {r content content' front back} (rule : r = .scriptBlock ∨ r = .styleBlock)
      (children : e.children = front ++ .data content :: back)
      (echoed : Text.Substitutes token p.replacement content content') :
      Echoes token p e r (.data content) ⟨e.name, e.attributes, front ++ .data content' :: back⟩
  | asElementName (named : e.name = token) :
      Echoes token p e .elementName .tag ⟨p.replacement, e.attributes, e.children⟩
  | asAttributeName {name value e'} (named : Text.sameIgnoringCase name token = true)
      (new : e.attr? p.replacement = none) (rewrites : e.Rewrites name value p.replacement value e') :
      Echoes token p e .attributeName (.attr name value) e'
  | asMarkup {before after front back left right inner}
      (children : e.children = front ++ .text (before ++ token ++ after) :: back)
      (injected : Element.name inner = p.marker) :
      Echoes token p e .unescapedText (.text (before ++ token ++ after))
        ⟨e.name, e.attributes, front ++ left ++ inner.toNode :: right ++ back⟩

section Markers

variable (ctx : Context) (r : Rule) (v : Descriptor)

theorem isMarkerChar_of_mem_short (id : RuleId) : ∀ c ∈ id.short.toList, Name.isMarkerChar c = true := by
  have digit : ∀ n < 16, Name.isMarkerChar (Text.hexDigit n) = true := by decide
  intro c member
  rw [RuleId.short, Uuid.short, String.toList_ofList, Uuid.digits] at member
  obtain ⟨i, -, rfl⟩ := List.mem_map.mp (List.mem_of_mem_take member)
  exact digit _ (Nat.mod_lt _ (by decide))

theorem isMarkerChar_of_mem_injected :
    ∀ c ∈ (ctx.injectedMarker r v).toList, Name.isMarkerChar c = true := by
  have code : ∀ c ∈ r.code.toList, Name.isMarkerChar c = true :=
    List.all_eq_true.mp (by cases r <;> decide)
  rw [Context.injectedMarker, String.toList_append, String.toList_append]
  exact List.forall_mem_append.mpr ⟨List.forall_mem_append.mpr
    ⟨Name.isMarkerChar_of_isMarkerSafe ctx.marker.safe, code⟩, isMarkerChar_of_mem_short v.rule⟩

end Markers

section Confirmation

variable {ctx : Context} {r : Rule} {s : Site} {v : Descriptor} {token : String} {e' : Element}
  {o : Output}

open Verification

theorem redirected_of_attr? [Uri.Idna] (found : s.path.resolve o = some e')
    (known : e'.attr? "href" = some (ctx.detection .stylesheetLink s v).payload.replacement) :
    (redirected (ctx.detection .stylesheetLink s v).payload o).isConfirmed = true := by
  have marked := isMarkerChar_of_mem_injected ctx .stylesheetLink v
  have written : (ctx.detection .stylesheetLink s v).payload.replacement.toList =
      "//".toList ++ ((ctx.injectedMarker .stylesheetLink v).toList ++ ".invalid/x.css".toList) :=
    Text.toList_append_append "//" _ ".invalid/x.css"
  have plain : ∀ c ∈ "//".toList ++
      ((ctx.injectedMarker .stylesheetLink v).toList ++ ".invalid/x.css".toList),
      Text.isBlank c = false :=
    List.forall_mem_append.mpr
      ⟨List.all_iff_forall_prop.mp (by decide),
        Uri.forall_mem_marked_append marked (by decide) (by decide)⟩
  have web : linkBase.scheme = "http" := rfl
  obtain ⟨uri, joined, host⟩ := Uri.join_marked marked web
  refine redirected_iff.mpr ⟨e', _, uri, found, known, ?_, ?_⟩
  · rw [written, Text.trim_of_no_blank plain]
    exact joined
  · rw [host, String.ofList_append, String.ofList_toList, String.ofList_toList]
    rfl

theorem scriptUri_of_attr? [Uri.Idna] {name : String} (found : s.path.resolve o = some e')
    (recorded : s.attrName? = some name)
    (known : e'.attr? name = some (ctx.detection .urlAttribute s v).payload.replacement) :
    (scriptUri (ctx.detection .urlAttribute s v).payload o).isConfirmed = true := by
  have marked := isMarkerChar_of_mem_injected ctx .urlAttribute v
  have written : (ctx.detection .urlAttribute s v).payload.replacement.toList =
      "javascript:".toList ++ ((ctx.injectedMarker .urlAttribute v).toList ++ "()".toList) :=
    Text.toList_append_append "javascript:" _ "()"
  have plain : ∀ c ∈ "javascript:".toList ++ ((ctx.injectedMarker .urlAttribute v).toList ++ "()".toList),
      Text.isBlank c = false :=
    List.forall_mem_append.mpr
      ⟨List.all_iff_forall_prop.mp (by decide),
        Uri.forall_mem_marked_append marked (by decide) (by decide)⟩
  have read := Uri.read_script marked
  rw [← Text.trim_of_no_blank plain, ← written] at read
  exact scriptUri_iff.mpr ⟨e', name, _, _, found, recorded, known, read, rfl, List.infix_append [] _ _⟩

theorem Echoes.confirms [Uri.Idna] (applies : r.isApplicable s ctx.settings = true)
    (echoes : Echoes token (ctx.detection r s v).payload s.element r s.content e')
    (found : s.path.resolve o = some e') :
    (r.verify (ctx.detection r s v).payload o).isConfirmed = true := by
  obtain ⟨path, e, content⟩ := s
  cases echoes with
  | inAttribute rule only echoed rewrites =>
    rename_i name value value'
    rcases rule with rfl | rfl
    · have known := rewrites.attr?_value only (Text.sameIgnoringCase_refl name)
      exact inAttribute_iff.mpr ⟨e', value', found, known, echoed.infix⟩
    · have known := rewrites.attr?_value only applies
      exact inAttribute_iff.mpr ⟨e', value', found, known, echoed.infix⟩
  | asAttribute rule only whole rewrites =>
    rename_i name value
    rcases rule with rfl | rfl
    · have alike : Text.sameIgnoringCase name "href" = true := (Bool.and_eq_true _ _ |>.mp applies).1
      exact redirected_of_attr? found (rewrites.attr?_value only alike)
    · have known := rewrites.attr?_value only (Text.sameIgnoringCase_refl name)
      exact scriptUri_of_attr? found rfl known
  | inData rule children echoed =>
    rename_i content content' front back
    have inside : (ctx.detection r ⟨path, e, .data content⟩ v).payload.replacement.toList <:+:
        (Element.ownText ⟨e.name, e.attributes, front ++ .data content' :: back⟩).toList :=
      echoed.infix.trans (Element.infix_ownText (List.mem_append_right _ List.mem_cons_self))
    rcases rule with rfl | rfl
    · exact inData_iff.mpr ⟨_, found, applies, inside⟩
    · exact inData_iff.mpr ⟨_, found, applies, inside⟩
  | asElementName named =>
    exact renamed_iff.mpr ⟨_, found, Text.sameIgnoringCase_refl _⟩
  | asAttributeName named new rewrites =>
    have there := rewrites.attr?_name new
    exact newAttribute_iff.mpr ⟨e', found, Element.attr?_eq_none_iff.mp new,
      Option.isSome_of_eq_some there⟩
  | asMarkup children injected =>
    rename_i before after front back left right inner
    refine injectedElement_iff.mpr ⟨_, found, inner, ?_, ?_⟩
    · refine Node.mem_elementsInAll (n := inner.toNode) ?_ List.mem_cons_self
      exact List.mem_append_left _ (List.mem_append_right _ List.mem_cons_self)
    · rw [Element.isNamed, injected]
      exact Text.sameIgnoringCase_refl _

end Confirmation

section Echo

variable {settings : AnalyzerSettings} {o : Output} {schema : Schema} {ledger : Ledger}
  {marker : Marker} {d : Detection}

/-- A detection is confirmed by the output in which a site that it was made at echoes its payload. -/
theorem verify_echo [Uri.Idna] (detected : d ∈ (standard settings).analyze o schema ledger marker) :
    (∃ r s v, Context.Makes ⟨schema, ledger, marker, settings⟩ o r s v d) ∧
      ∀ r s v token e', Context.Makes ⟨schema, ledger, marker, settings⟩ o r s v d →
        v.marker = some token → Echoes token d.payload s.element r s.content e' →
          ∃ sample, (standard settings).verify d (o.replace s.path e') = .ok (.confirmed sample) := by
  refine ⟨exists_makes detected, ?_⟩
  rintro r s v token e' ⟨site, -, applies, -, -, rfl⟩ - echoes
  have found : s.path.resolve (o.replace s.path e') = some e' :=
    Output.resolve_replace (Output.resolve_of_mem_sites site) e'
  obtain ⟨sample, confirmed⟩ := Verification.isConfirmed_iff.mp (echoes.confirms applies found)
  exact ⟨sample, by rw [verify_standard rfl, confirmed]⟩

open Document

def handler (value : String) : Element where
  name := "p"
  attributes := ⟨[("class", "c"), ("onclick", value)], (by decide : ["class", "onclick"].Nodup)⟩
  children := []

def handlerValue : Descriptor := ⟨trialObject 2, trialRule 11, "zqabcdef", false, some "zqabcdef"⟩

def handlerContext : Context := ⟨trialSchema, .ofList [handlerValue], trialMarker, .standard⟩

def handlerSite : Site :=
  ⟨⟨[0]⟩, handler "f('zqabcdef')", .attr "onclick" "f('zqabcdef')"⟩

attribute [local instance] Uri.Idna.plain

theorem verify_echo_in_handler : ∃ sample,
    (standard .standard).verify (handlerContext.detection .eventHandler handlerSite handlerValue)
      (Output.replace ⟨[(handler "f('zqabcdef')").toNode]⟩ ⟨[0]⟩
        (handler "f('');zqh100000000();//')")) = .ok (.confirmed sample) := by
  have makes : handlerContext.Makes ⟨[(handler "f('zqabcdef')").toNode]⟩ .eventHandler handlerSite
      handlerValue (handlerContext.detection .eventHandler handlerSite handlerValue) :=
    ⟨.tail _ (.tail _ (.head _)), by decide, by decide, by decide +kernel, by decide +kernel, rfl⟩
  have detected : handlerContext.detection .eventHandler handlerSite handlerValue ∈
      (standard .standard).analyze ⟨[(handler "f('zqabcdef')").toNode]⟩ trialSchema
        (.ofList [handlerValue]) trialMarker := by decide +kernel
  have echoes : Echoes "zqabcdef"
      (handlerContext.detection .eventHandler handlerSite handlerValue).payload handlerSite.element
      .eventHandler handlerSite.content (handler "f('');zqh100000000();//')") :=
    .inAttribute (.inl rfl) (by unfold Element.OnlyNamed; decide +kernel)
      ⟨"f('", "')", [], by decide +kernel, by decide +kernel⟩
      ⟨⟨[("class", "c")], [], rfl, rfl⟩, rfl, rfl⟩
  exact (verify_echo detected).2 _ _ _ _ _ makes rfl echoes

end Echo

end Engine

end TaintScan
