import TaintScan.Proofs.Analysis.Echo

namespace TaintScan

namespace Text

variable {a b : String}

theorem sameIgnoringCase_symm (h : sameIgnoringCase a b = true) : sameIgnoringCase b a = true :=
  sameIgnoringCase_iff.mpr (sameIgnoringCase_iff.mp h).symm

theorem sameIgnoringCase_trans {c : String} (h : sameIgnoringCase a b = true)
    (h' : sameIgnoringCase b c = true) : sameIgnoringCase a c = true :=
  sameIgnoringCase_iff.mpr ((sameIgnoringCase_iff.mp h).trans (sameIgnoringCase_iff.mp h'))

end Text

theorem AnalyzerSettings.isUrlAttribute_of_same {a b : String} {settings : AnalyzerSettings}
    (h : Text.sameIgnoringCase a b = true) (listed : settings.isUrlAttribute a = true) :
    settings.isUrlAttribute b = true := by
  obtain ⟨known, member, same⟩ := List.any_eq_true.mp listed
  exact List.any_eq_true.mpr ⟨known, member, Text.sameIgnoringCase_trans same h⟩

namespace Rule

open Verification

theorem foldsToLetter_toLower (c : Char) : foldsToLetter c.toLower = foldsToLetter c := by
  by_cases ascii : c.toNat < 128
  · exact Text.ascii_induction (P := fun c => foldsToLetter c.toLower = foldsToLetter c)
      (by decide) ascii
  · rw [Text.toLower_of_not_ascii ascii]

def isHandlerShape : List Char → Bool
  | o :: n :: c :: rest => o == 'o' && n == 'n' && (c :: rest).all foldsToLetter
  | _ => false

theorem isHandlerName_eq (name : String) :
    isHandlerName name = isHandlerShape (Text.lowerCase name.toList) := by
  have folded : foldsToLetter ∘ Char.toLower = foldsToLetter := funext foldsToLetter_toLower
  unfold isHandlerName
  match name.toList with
  | [] => rfl
  | [_] => rfl
  | [_, _] => rfl
  | o :: n :: c :: rest =>
    have letters : ((c :: rest).map Char.toLower).all foldsToLetter = (c :: rest).all foldsToLetter := by
      rw [List.all_map, folded]
    simp only [Text.lowerCase, List.map_cons, isHandlerShape] at letters ⊢
    rw [letters]

theorem isHandlerName_of_same {a b : String} (h : Text.sameIgnoringCase a b = true)
    (handler : isHandlerName a = true) : isHandlerName b = true := by
  rw [isHandlerName_eq] at handler ⊢
  rw [← Text.sameIgnoringCase_iff.mp h]
  exact handler

def attributeSought? (r : Rule) (p : Payload) : Option String :=
  match r with
  | eventHandler => p.attributeName
  | styleAttribute => some "style"
  | stylesheetLink => some "href"
  | urlAttribute => p.attributeName
  | _ => none

/-- What a rule reads of the element at the path of a payload: the first attribute of the name it
looks for, up to case, or the data. -/
inductive Reads (r : Rule) (p : Payload) (e : Element) : SiteContent → Prop
  | attribute {name value sought} (seeks : r.attributeSought? p = some sought)
      (found : e.attributes.entries.find? (fun a => Text.sameIgnoringCase a.1 sought) =
        some (name, value)) : Reads r p e (.attr name value)
  | data (block : r = .scriptBlock ∨ r = .styleBlock) : Reads r p e (.data e.ownText)

/-- The rules that attack attribute values or data of a kind. -/
def contextual : List Rule := [
  .eventHandler, .scriptBlock, .styleAttribute, .styleBlock, .stylesheetLink, .urlAttribute]

variable {r : Rule} {p : Payload} {e : Element}

theorem reads_of_attr? {value sought : String} (seeks : r.attributeSought? p = some sought)
    (known : e.attr? sought = some value) :
    ∃ name, Text.sameIgnoringCase name sought = true ∧ Reads r p e (.attr name value) := by
  obtain ⟨⟨name, value'⟩, found, rfl⟩ := Option.map_eq_some_iff.mp known
  have same : Text.sameIgnoringCase name sought = true := by simpa using List.find?_some found
  exact ⟨name, same, .attribute seeks found⟩

theorem attr?_of_confirmed [Uri.Idna] {o : Output} (seeks : r.category = .attr) (other : r ≠ .attributeName)
    (confirmed : (r.verify p o).isConfirmed = true) : ∃ e sought value,
      p.path.resolve o = some e ∧ r.attributeSought? p = some sought ∧ e.attr? sought = some value := by
  cases r
  case attributeName => exact absurd rfl other
  case eventHandler =>
    cases recorded : p.attributeName with
    | none =>
      simp only [verify, recorded] at confirmed
      cases confirmed
    | some name =>
      simp only [verify, recorded] at confirmed
      obtain ⟨e, value, found, known, -⟩ := inAttribute_iff.mp confirmed
      exact ⟨e, name, value, found, recorded, known⟩
  case styleAttribute =>
    obtain ⟨e, value, found, known, -⟩ := inAttribute_iff.mp confirmed
    exact ⟨e, "style", value, found, rfl, known⟩
  case stylesheetLink =>
    obtain ⟨e, href, -, found, known, -⟩ := redirected_iff.mp confirmed
    exact ⟨e, "href", href, found, rfl, known⟩
  case urlAttribute =>
    obtain ⟨e, name, value, -, found, recorded, known, -⟩ := scriptUri_iff.mp confirmed
    exact ⟨e, name, value, found, recorded, known⟩
  all_goals cases seeks

end Rule

namespace Engine.Context

open Rule Verification

variable {ctx : Context} {r : Rule} {s : Site} {v : Descriptor} {d : Detection} {e : Element}
  {o : Output}

/-- Where a rule applies to an attribute, it applies to the one it finds again. Of a link that is the
attribute alone. -/
theorem isApplicable_found {name value sought : String} (attr : r.category = .attr)
    (other : r ≠ .attributeName) (applies : r.isApplicable s ctx.settings = true)
    (seeks : r.attributeSought? (ctx.detection r s v).payload = some sought)
    (same : Text.sameIgnoringCase name sought = true) :
    r.isApplicable ⟨s.path, e, .attr name value⟩ ctx.settings = true ↔
      (r = .stylesheetLink → linksStylesheet e = true) := by
  obtain ⟨path, element, content⟩ := s
  cases r
  case attributeName => exact absurd rfl other
  case eventHandler =>
    cases content with
    | attr recorded _ =>
      obtain rfl : recorded = sought := Option.some.inj seeks
      have handler := isHandlerName_of_same (Text.sameIgnoringCase_symm same) applies
      simpa [isApplicable] using handler
    | _ => cases applies
  case styleAttribute =>
    obtain rfl : "style" = sought := Option.some.inj seeks
    simpa [isApplicable] using same
  case stylesheetLink =>
    obtain rfl : "href" = sought := Option.some.inj seeks
    simp [isApplicable, same]
  case urlAttribute =>
    cases content with
    | attr recorded _ =>
      obtain rfl : recorded = sought := Option.some.inj seeks
      have listed := AnalyzerSettings.isUrlAttribute_of_same (Text.sameIgnoringCase_symm same) applies
      simpa [isApplicable] using listed
    | _ => cases applies
  all_goals cases attr

/-- A confirmed injection arrived in the context that its rule attacks. The name of a link and its
`rel` may have changed, and only they. -/
theorem confirmed_in_context [Uri.Idna] (attacks : r ∈ contextual)
    (applies : r.isApplicable s ctx.settings = true) (made : d ∈ ctx.detect r s)
    (confirmed : (r.verify d.payload o).isConfirmed = true) :
    ∃ e content, d.payload.path.resolve o = some e ∧ r.Reads d.payload e content ∧
      (r.isApplicable ⟨d.payload.path, e, content⟩ ctx.settings = true ↔
        (r = .stylesheetLink → linksStylesheet e = true)) := by
  rw [detect_eq] at made
  obtain ⟨v, -, rfl⟩ := List.mem_map.mp made
  have named : ∀ {tag}, (inData (ctx.detection r s v).payload o tag).isConfirmed = true →
      ∃ e, (ctx.detection r s v).payload.path.resolve o = some e ∧ e.isNamed tag = true :=
    fun inside => by
      obtain ⟨e, found, named, -⟩ := inData_iff.mp inside
      exact ⟨e, found, named⟩
  by_cases block : r = .scriptBlock ∨ r = .styleBlock
  · rcases block with rfl | rfl
    · obtain ⟨e, found, script⟩ := named confirmed
      exact ⟨e, _, found, .data (.inl rfl), by simpa [isApplicable] using script⟩
    · obtain ⟨e, found, style⟩ := named confirmed
      exact ⟨e, _, found, .data (.inr rfl), by simpa [isApplicable] using style⟩
  · have attr : r.category = .attr ∧ r ≠ .attributeName := by
      cases r <;> simp_all [contextual, category]
    obtain ⟨e, sought, value, found, seeks, known⟩ :=
      attr?_of_confirmed attr.1 attr.2 confirmed
    obtain ⟨name, same, reads⟩ := reads_of_attr? seeks known
    exact ⟨e, _, found, reads, isApplicable_found attr.1 attr.2 applies seeks same⟩

section Links

open Document

def shoutedHandler : Element where
  name := "P"
  attributes := ⟨[("ONCLICK", "f('');zqh100000000();//')")], (by decide : ["ONCLICK"].Nodup)⟩
  children := []

attribute [local instance] Uri.Idna.plain

theorem confirmed_in_context_shouted :
    let found := handlerContext.detection .eventHandler handlerSite handlerValue
    ∃ e content, found.payload.path.resolve ⟨[shoutedHandler.toNode]⟩ = some e ∧
      Rule.Reads .eventHandler found.payload e content ∧
      (isApplicable .eventHandler ⟨found.payload.path, e, content⟩ handlerContext.settings = true ↔
        (Rule.eventHandler = .stylesheetLink → linksStylesheet e = true)) := by
  have made : handlerContext.detection .eventHandler handlerSite handlerValue ∈
      handlerContext.detect .eventHandler handlerSite := by decide +kernel
  exact confirmed_in_context (by decide) (by decide) made (by decide +kernel)

def linked (tag target : String) : Element where
  name := tag
  attributes :=
    ⟨[("rel", "stylesheet"), ("href", target)], (by decide : ["rel", "href"].Nodup)⟩
  children := []

theorem attr?_linked (tag target : String) : (linked tag target).attr? "href" = some target := by
  have other : Text.sameIgnoringCase "rel" "href" = false := by decide
  have same : Text.sameIgnoringCase "href" "href" = true := by decide
  simp [linked, Element.attr?, other, same]

def linkSite : Site := ⟨⟨[0]⟩, linked "link" "zqabcdef", .attr "href" "zqabcdef"⟩

theorem redirected_anchor [Uri.Idna] (ctx : Context) (v : Descriptor) :
    let p := (ctx.detection .stylesheetLink linkSite v).payload
    (redirected p ⟨[(linked "a" p.replacement).toNode]⟩).isConfirmed = true :=
  redirected_of_attr? rfl (attr?_linked "a" _)

theorem confirmed_not_always_in_context :
    ¬ ∀ (ctx : Context) (r : Rule) (s : Site) (o : Output), r ∈ contextual →
      r.isApplicable s ctx.settings = true → ∀ d ∈ ctx.detect r s,
        (r.verify d.payload o).isConfirmed = true →
          ∃ e content, d.payload.path.resolve o = some e ∧ r.Reads d.payload e content ∧
            r.isApplicable ⟨d.payload.path, e, content⟩ ctx.settings = true := by
  intro stays
  let injected := handlerContext.detection .stylesheetLink linkSite handlerValue
  let anchor := linked "a" injected.payload.replacement
  have made : injected ∈ handlerContext.detect .stylesheetLink linkSite := by decide +kernel
  have found : linkSite.path.resolve ⟨[anchor.toNode]⟩ = some anchor := rfl
  have confirmed := redirected_anchor handlerContext handlerValue
  obtain ⟨e, content, relocated, -, applies⟩ := stays handlerContext .stylesheetLink linkSite
    ⟨[anchor.toNode]⟩ (by decide) (by decide) injected made confirmed
  obtain rfl : anchor = e := Option.some.inj (found.symm.trans relocated)
  cases content with
  | attr name value =>
    have links : linksStylesheet anchor = true := (Bool.and_eq_true _ _ |>.mp applies).2
    have renamed : anchor.isNamed "link" = false := by
      show Text.sameIgnoringCase "a" "link" = false
      decide
    rw [linksStylesheet, renamed] at links
    cases links
  | _ => cases applies

end Links

end Engine.Context

end TaintScan
