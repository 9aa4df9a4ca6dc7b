import TaintScan.Analysis.Engine
import TaintScan.Proofs.Analysis.Provenance

namespace TaintScan

theorem Element.attr?_eq_none_iff {e : Element} {name : String} : e.attr? name = none ↔
    ∀ known ∈ e.attributes.keys, Text.sameIgnoringCase known name = false := by
  simp [attr?, OrderedMap.keys]

namespace Verification

variable {p : Payload} {o : Output} {v : Verification}

theorem isConfirmed_iff : v.isConfirmed = true ↔ ∃ sample, v = .confirmed sample := by
  cases v with
  | confirmed sample => exact ⟨fun _ => ⟨sample, rfl⟩, fun _ => rfl⟩
  | refuted reason => exact ⟨nofun, nofun⟩

theorem isConfirmed_ite {c : Prop} [Decidable c] {sample reason : String} :
    (if c then confirm sample else .refuted reason).isConfirmed = true ↔ c := by
  by_cases h : c
  · rw [if_pos h]
    exact ⟨fun _ => h, fun _ => rfl⟩
  · rw [if_neg h]
    exact ⟨nofun, fun h' => absurd h' h⟩

theorem atElement_iff {check : Element → Verification} : (atElement p o check).isConfirmed = true ↔
    ∃ e, p.path.resolve o = some e ∧ (check e).isConfirmed = true := by
  unfold atElement
  cases p.path.resolve o with
  | none => exact ⟨nofun, nofun⟩
  | some e =>
    constructor
    · exact fun h => ⟨e, rfl, h⟩
    · rintro ⟨e', same, h⟩
      obtain rfl := Option.some.inj same
      exact h

theorem atAttribute_iff {e : Element} {name : String} {check : String → Verification} :
    (atAttribute e name check).isConfirmed = true ↔
      ∃ value, e.attr? name = some value ∧ (check value).isConfirmed = true := by
  unfold atAttribute
  cases e.attr? name with
  | none => exact ⟨nofun, nofun⟩
  | some value =>
    constructor
    · exact fun h => ⟨value, rfl, h⟩
    · rintro ⟨value', same, h⟩
      obtain rfl := Option.some.inj same
      exact h

theorem inAttribute_iff {name : String} : (inAttribute p o name).isConfirmed = true ↔
    ∃ e value, p.path.resolve o = some e ∧ e.attr? name = some value ∧
      p.replacement.toList <:+: value.toList := by
  simp only [inAttribute, atElement_iff, atAttribute_iff, isConfirmed_ite, Text.contains,
    Text.occursIn_iff_infix]
  constructor
  · rintro ⟨e, found, value, known, inside⟩
    exact ⟨e, value, found, known, inside⟩
  · rintro ⟨e, value, found, known, inside⟩
    exact ⟨e, found, value, known, inside⟩

theorem inData_iff {name : String} : (inData p o name).isConfirmed = true ↔
    ∃ e, p.path.resolve o = some e ∧ e.isNamed name = true ∧
      p.replacement.toList <:+: e.ownText.toList := by
  rw [inData, atElement_iff]
  refine exists_congr fun e => and_congr_right fun _ => ?_
  by_cases named : e.isNamed name = true
  · rw [if_pos named, isConfirmed_ite, Text.contains, Text.occursIn_iff_infix]
    exact ⟨fun inside => ⟨named, inside⟩, And.right⟩
  · rw [if_neg named]
    refine ⟨fun h => ?_, fun h => absurd h.1 named⟩
    cases h

theorem newAttribute_iff : (newAttribute p o).isConfirmed = true ↔
    ∃ e, p.path.resolve o = some e ∧
      (∀ known ∈ p.baselineAttributes, Text.sameIgnoringCase known p.marker = false) ∧
      (e.attr? p.marker).isSome = true := by
  rw [newAttribute, atElement_iff]
  refine exists_congr fun e => and_congr_right fun _ => ?_
  by_cases there : (p.baselineAttributes.any fun known => Text.sameIgnoringCase known p.marker) = true
  · rw [if_pos there]
    obtain ⟨known, member, same⟩ := List.any_eq_true.mp there
    refine ⟨nofun, fun h => ?_⟩
    rw [h.1 known member] at same
    cases same
  · rw [if_neg there, isConfirmed_ite]
    refine ⟨fun h => ⟨fun known member => ?_, h⟩, And.right⟩
    exact Bool.eq_false_iff.mpr fun same => there (List.any_eq_true.mpr ⟨known, member, same⟩)

theorem renamed_iff : (renamed p o).isConfirmed = true ↔
    ∃ e, p.path.resolve o = some e ∧ e.isNamed p.marker = true := by
  rw [renamed, atElement_iff]
  exact exists_congr fun e => and_congr_right fun _ => isConfirmed_ite

theorem injectedElement_iff : (injectedElement p o).isConfirmed = true ↔
    ∃ e, p.path.resolve o = some e ∧
      ∃ inner ∈ Node.elementsInAll e.children, inner.isNamed p.marker = true := by
  rw [injectedElement, atElement_iff]
  refine exists_congr fun e => and_congr_right fun _ => ?_
  cases found : (Node.elementsInAll e.children).find? fun inner => inner.isNamed p.marker with
  | none =>
    refine ⟨nofun, ?_⟩
    rintro ⟨inner, member, named⟩
    exact absurd named (List.find?_eq_none.mp found inner member)
  | some inner =>
    have named := List.find?_some found
    exact ⟨fun _ => ⟨inner, List.mem_of_find?_eq_some found, named⟩, fun _ => rfl⟩

theorem redirected_iff [Uri.Idna] : (redirected p o).isConfirmed = true ↔
    ∃ e href uri, p.path.resolve o = some e ∧ e.attr? "href" = some href ∧
      linkBase.join (String.ofList (Text.trim href.toList)) = .ok uri ∧
      uri.hostText? = some (expectedHost p) := by
  simp only [redirected, atElement_iff, atAttribute_iff]
  constructor
  · rintro ⟨e, found, href, known, checked⟩
    cases joined : linkBase.join (String.ofList (Text.trim href.toList)) with
    | error fault =>
      rw [joined] at checked
      cases checked
    | ok uri =>
      rw [joined] at checked
      exact ⟨e, href, uri, found, known, joined, isConfirmed_ite.mp checked⟩
  · rintro ⟨e, href, uri, found, known, joined, host⟩
    refine ⟨e, found, href, known, ?_⟩
    rw [joined]
    exact isConfirmed_ite.mpr host

theorem scriptUri_iff [Uri.Idna] : (scriptUri p o).isConfirmed = true ↔
    ∃ e name value uri, p.path.resolve o = some e ∧ p.attributeName = some name ∧
      e.attr? name = some value ∧ Uri.read (String.ofList (Text.trim value.toList)) = .ok uri ∧
      uri.scheme = "javascript" ∧ p.marker.toList <:+: uri.path.chars := by
  rw [scriptUri, atElement_iff]
  constructor
  · rintro ⟨e, found, checked⟩
    cases named : p.attributeName with
    | none =>
      rw [named] at checked
      cases checked
    | some name =>
      rw [named] at checked
      obtain ⟨value, known, checked⟩ := atAttribute_iff.mp checked
      unfold runsScript at checked
      cases read : Uri.read (String.ofList (Text.trim value.toList)) with
      | error fault =>
        rw [read] at checked
        cases checked
      | ok uri =>
        rw [read] at checked
        obtain ⟨scheme, inside⟩ := isConfirmed_ite.mp checked
        rw [Uri.pathText, Text.contains, String.toList_ofList, Text.occursIn_iff_infix] at inside
        exact ⟨e, name, value, uri, found, rfl, known, read, scheme, inside⟩
  · rintro ⟨e, name, value, uri, found, named, known, read, scheme, inside⟩
    refine ⟨e, found, ?_⟩
    rw [named]
    refine atAttribute_iff.mpr ⟨value, known, ?_⟩
    rw [runsScript, read]
    refine isConfirmed_ite.mpr ⟨scheme, ?_⟩
    rw [Uri.pathText, Text.contains, String.toList_ofList, Text.occursIn_iff_infix]
    exact inside

end Verification

namespace Engine

theorem verify_standard [Uri.Idna] {d : Detection} {r : Rule} (made : d.analyzerRule = r.id)
    (settings : AnalyzerSettings) (o : Output) :
    (standard settings).verify d o = .ok (r.verify d.payload o) := by
  have known : (standard settings).rule r.id = .ok r := rule_of_mem (Rule.mem_all r)
  rw [verify, made, known]

end Engine

end TaintScan
