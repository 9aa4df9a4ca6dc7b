import Mathlib.Data.Bool.AllAny
import TaintScan.Proofs.Uri.Readback

namespace TaintScan

namespace Uri

theorem joinRelative_slashes [Idna] (base : Uri) (cs : List Char) :
    joinRelative base ("//".toList ++ cs) = readServed base.scheme cs := rfl

theorem fromTop_authority (scheme : String) (authority : Authority) (cs : List Char) :
    (fromTop scheme authority cs).authority = some authority := by
  unfold fromTop
  simp only
  split <;> rfl

section Marked

variable {m : List Char} (marked : ∀ c ∈ m, Name.isMarkerChar c = true)

include marked

theorem forall_mem_marked_append {P : Char → Prop} [DecidablePred P] {back : List Char}
    (all : ∀ n < 128, Name.isMarkerChar (Char.ofNat n) = true → P (Char.ofNat n))
    (behind : back.all (fun c => P c) = true) : ∀ c ∈ m ++ back, P c :=
  List.forall_mem_append.mpr
    ⟨fun c inside => Name.isMarkerChar_induction (marked c inside) all, List.all_iff_forall_prop.mp behind⟩

theorem read_script [Idna] : read (String.ofList ("javascript:".toList ++ (m ++ "()".toList))) =
    .ok ⟨"javascript", none, .plain (m ++ "()".toList), none, none⟩ := by
  have named : IsScheme "javascript" := ⟨by decide, List.all_eq_true.mp (by decide), by decide⟩
  have outside : ∀ c ∈ m ++ "()".toList, isPadding c = false :=
    forall_mem_marked_append marked (by decide) (by decide)
  have canonical : Canonical ⟨"javascript", none, .plain (m ++ "()".toList), none, none⟩ := by
    refine .plain named (by decide) ?_ ?_ (fun first => ?_) ?_ ⟨nofun, nofun⟩
    · exact forall_mem_marked_append marked (by decide) (by decide)
    · exact forall_mem_marked_append marked (by decide) (by decide)
    · exact forall_mem_marked_append marked (P := (· ≠ '/')) (by decide) (by decide) '/'
        (List.mem_of_head? first) rfl
    · exact fun _ c last => outside c (List.mem_of_getLast? last)
  have apart : "javascript:".toList ++ (m ++ "()".toList) =
      chars ⟨"javascript", none, .plain (m ++ "()".toList), none, none⟩ := by
    have front : "javascript:".toList = "javascript".toList ++ [':'] := by decide
    rw [chars_eq, behind_plain, partsChars, partChars, partChars, List.append_nil, List.append_nil, front,
      List.append_assoc, List.singleton_append]
  have hostless : Labelled ⟨"javascript", none, .plain (m ++ "()".toList), none, none⟩ :=
    fun _ missing => by cases missing
  rw [apart]
  exact canonical.read_text.trans (if_pos hostless)

theorem pieces_marked : Text.pieces (· == '.') (m ++ ".invalid".toList) = [m, "invalid".toList] := by
  have undotted : ∀ c ∈ m, (c == '.') = false := fun c inside =>
    Name.isMarkerChar_induction (P := fun c => (c == '.') = false) (marked c inside) (by decide)
  exact Text.pieces_append undotted rfl

theorem areValid_marked : Label.areValid (Text.pieces (· == '.') (m ++ ".invalid".toList)) = true := by
  have unmarked : Label.mark.isPrefixOf m = false := by
    refine Bool.eq_false_iff.mpr fun front => ?_
    obtain ⟨rest, rfl⟩ := List.isPrefixOf_iff_prefix.mp front
    exact absurd (marked '-' (List.mem_append_left _ (by decide))) (by decide)
  apply Label.areValid_of_no_mark
  rw [pieces_marked marked, List.any_cons, unmarked]
  decide

theorem not_endsInNumber_marked : Ipv4.endsInNumber (m ++ ".invalid".toList) = false := by
  have parts : Ipv4.parts (m ++ ".invalid".toList) = [m, "invalid".toList] := by
    rw [Ipv4.parts, pieces_marked marked]
    rfl
  rw [Ipv4.endsInNumber, parts]
  rfl

theorem canonical_marked [Idna] :
    Authority.Canonical "http" ⟨.nobody, .name (m ++ ".invalid".toList), none⟩ := by
  have lowered : Text.lowerCase (m ++ ".invalid".toList) = m ++ ".invalid".toList :=
    (List.map_congr_left (forall_mem_marked_append marked (P := fun c => c.toLower = c)
      (by decide) (by decide))).trans (List.map_id _)
  have allowed : ∀ c ∈ m ++ ".invalid".toList, Host.isForbiddenInDomain c = false :=
    forall_mem_marked_append marked (by decide) (by decide)
  have named : m ++ ".invalid".toList ≠ [] := by simp
  have host : Host.Canonical (SchemeKind.ofScheme "http") (.name (m ++ ".invalid".toList)) :=
    .domain (by decide) named allowed lowered (.inl (areValid_marked marked)) (not_endsInNumber_marked marked)
  refine ⟨⟨nofun, nofun⟩, host, nofun, nofun, fun none => ?_⟩
  exact absurd (Host.name.inj none) named

theorem join_marked [Idna] {base : Uri} (web : base.scheme = "http") : ∃ uri,
    base.join (String.ofList ("//".toList ++ (m ++ ".invalid/x.css".toList))) = .ok uri ∧
      uri.hostText? = some (String.ofList (m ++ ".invalid".toList)) := by
  have apart : m ++ ".invalid/x.css".toList =
      Authority.chars ⟨.nobody, .name (m ++ ".invalid".toList), none⟩ ++ "/x.css".toList := by
    show m ++ ".invalid/x.css".toList = (m ++ ".invalid".toList ++ []) ++ "/x.css".toList
    rw [List.append_nil, List.append_assoc]
    rfl
  have outside : ∀ c ∈ "//".toList ++ (m ++ ".invalid/x.css".toList), isPadding c = false :=
    List.forall_mem_append.mpr
      ⟨List.all_iff_forall_prop.mp (by decide), forall_mem_marked_append marked (by decide) (by decide)⟩
  have kept := unpadded_of_ends (fun c first => outside c (List.mem_of_head? first))
    (fun c last => outside c (List.mem_of_getLast? last))
  have whole := unbroken_of_not_break fun c member => isBreak_of_not_padding (outside c member)
  have schemeless : splitScheme ("//".toList ++ (m ++ ".invalid/x.css".toList)) = none := rfl
  have ends : Ends "/x.css".toList := fun c first => .inl (Option.some.inj first).symm
  have labelled : Host.Labelled (SchemeKind.ofScheme "http") (.name (m ++ ".invalid".toList)) :=
    fun _ => areValid_marked marked
  have authority := ((canonical_marked marked).takeAuthority ends).trans (if_pos labelled)
  refine ⟨fromTop "http" ⟨.nobody, .name (m ++ ".invalid".toList), none⟩ "/x.css".toList, ?_, ?_⟩
  · rw [join, String.toList_ofList, kept, schemeless]
    simp only [whole]
    rw [joinRelative_slashes, web, readServed, apart, authority]
    rfl
  · have present : Host.name (m ++ ".invalid".toList) ≠ Host.none := by simp [Host.none]
    rw [hostText?, host?, fromTop_authority, Option.bind_some, if_neg present]
    rfl

end Marked

end Uri

end TaintScan
