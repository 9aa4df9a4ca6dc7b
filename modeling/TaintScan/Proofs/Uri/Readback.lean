import TaintScan.Proofs.Uri.Path

namespace TaintScan.Uri

structure IsScheme (scheme : String) : Prop where
  first : scheme.toList.head?.any Char.isAlpha = true
  allowed : ∀ c ∈ scheme.toList, isSchemeChar c = true
  lowered : Text.lowerCase scheme.toList = scheme.toList

def Labelled (u : Uri) : Prop := ∀ a ∈ u.authority, a.host.Labelled (SchemeKind.ofScheme u.scheme)

instance (u : Uri) : Decidable u.Labelled :=
  inferInstanceAs (Decidable (∀ a ∈ u.authority, a.host.Labelled (SchemeKind.ofScheme u.scheme)))

variable {scheme : String} {authority : Authority} {segments : List Segment} {path cs rest : List Char}
  {query fragment : Option (List Char)} {u : Uri}

theorem isBreak_of_not_padding {c : Char} (inside : isPadding c = false) : isBreak c = false := by
  rw [Bool.eq_false_iff]
  intro breaks
  simp only [isBreak, Bool.or_eq_true, beq_iff_eq] at breaks
  rcases breaks with (rfl | rfl) | rfl <;> exact absurd inside (by decide)

theorem unbroken_of_not_break (plain : ∀ c ∈ cs, isBreak c = false) : unbroken cs = cs :=
  List.filter_eq_self.mpr fun c member => by rw [plain c member, Bool.not_false]

theorem unpadded_of_ends (first : ∀ c ∈ cs.head?, isPadding c = false)
    (last : ∀ c ∈ cs.getLast?, isPadding c = false) : unpadded cs = cs := by
  have kept {text : List Char} (first : ∀ c ∈ text.head?, isPadding c = false) :
      text.dropWhile isPadding = text := by
    cases text with
    | nil => rfl
    | cons c rest => rw [List.dropWhile_cons_of_neg (by simp [first c rfl])]
  rw [unpadded, kept first, kept (by rwa [List.head?_reverse]), List.reverse_reverse]

theorem not_padding_last_unpadded (cs : List Char) : ∀ c ∈ (unpadded cs).getLast?, isPadding c = false := by
  intro c last
  rw [unpadded, List.getLast?_reverse] at last
  have stops := List.head?_dropWhile_not isPadding (cs.dropWhile isPadding).reverse
  rwa [last] at stops

theorem getLast?_unbroken (last : ∀ c ∈ cs.getLast?, isPadding c = false) :
    ∀ c ∈ (unbroken cs).getLast?, isPadding c = false := by
  rcases List.eq_nil_or_concat cs with rfl | ⟨front, c, rfl⟩
  · exact nofun
  · have kept : isPadding c = false := last c (by simp)
    rw [unbroken, List.concat_eq_append, List.filter_append,
      List.filter_cons_of_pos (by simp [isBreak_of_not_padding kept])]
    intro d same
    rw [List.filter_nil, List.getLast?_concat] at same
    cases same
    exact kept

theorem isSchemeChar_induction {P : Char → Prop} {c : Char} (h : isSchemeChar c = true)
    (all : ∀ n < 128, isSchemeChar (Char.ofNat n) = true → P (Char.ofNat n)) : P c := by
  refine Text.ascii_induction (P := fun c => isSchemeChar c = true → P c) all ?_ h
  simp only [isSchemeChar, Char.isAlphanum, Bool.or_eq_true, beq_iff_eq] at h
  rcases h with (((letter | digit) | rfl) | rfl) | rfl
  · exact Text.toNat_of_isAlpha letter
  · have last : c.toNat ≤ 57 := (of_decide_eq_true (Bool.and_eq_true_iff.mp digit).2 : c.val ≤ '9'.val)
    omega
  all_goals decide

theorem splitScheme_written (named : IsScheme scheme) :
    splitScheme (scheme.toList ++ ':' :: rest) = some (scheme, rest) := by
  have inside : ∀ c ∈ scheme.toList, (isSchemeChar c || isBreak c) = true := fun c member => by
    rw [named.allowed c member, Bool.true_or]
  have front := Text.span_append _ _ (':' :: rest) inside fun c first => by
    cases first
    rfl
  have whole : unbroken scheme.toList = scheme.toList := unbroken_of_not_break fun c member =>
    isSchemeChar_induction (P := (isBreak · = false)) (named.allowed c member) (by decide)
  rw [splitScheme, front]
  simp only [whole, named.first, named.lowered, String.ofList_toList, if_true]

theorem isScheme_of_splitScheme (found : splitScheme cs = some (scheme, rest)) :
    IsScheme scheme ∧ rest <:+ cs := by
  unfold splitScheme at found
  split at found
  · rename_i front behind spanned
    simp only at found
    split at found
    · rename_i first
      cases found
      rw [List.span_eq_takeWhile_dropWhile, Prod.mk.injEq] at spanned
      have allowed : ∀ c ∈ unbroken front, isSchemeChar c = true := by
        intro c member
        rcases List.mem_filter.mp member with ⟨member, whole⟩
        rw [← spanned.1] at member
        have either := List.mem_takeWhile_imp member
        rw [Bool.not_eq_true'] at whole
        rwa [whole, Bool.or_false] at either
      refine ⟨⟨?_, ?_, ?_⟩, ?_⟩
      · rw [String.toList_ofList, Text.lowerCase, List.head?_map]
        cases known : (unbroken front).head? with
        | none =>
          rw [known] at first
          cases first
        | some c =>
          rw [known] at first
          exact Text.ascii_induction (P := fun c => c.isAlpha = true → c.toLower.isAlpha = true)
            (by decide) (Text.toNat_of_isAlpha first) first
      · rw [String.toList_ofList]
        intro c member
        rcases List.mem_map.mp member with ⟨d, inside, rfl⟩
        exact isSchemeChar_induction (P := fun d => isSchemeChar d.toLower = true) (allowed d inside)
          (by decide)
      · rw [String.toList_ofList, Text.lowerCase_lowerCase]
      · rw [← List.takeWhile_append_dropWhile (p := fun c => isSchemeChar c || isBreak c) (l := cs), spanned.2]
        exact (List.suffix_cons _ _).trans (List.suffix_append _ _)
    · cases found
  · cases found

theorem not_padding_of_clean {reserved : Char → Bool} {cs : List Char}
    (all : ∀ n < 128, reserved (Char.ofNat n) = false → isPadding (Char.ofNat n) = false)
    (clean : Clean reserved cs) : ∀ c ∈ cs, isPadding c = false := fun c member =>
  Text.ascii_induction (P := fun c => reserved c = false → isPadding c = false) all (clean c member).1
    (clean c member).2

theorem not_padding_partsChars {kind : SchemeKind} (parts : PartsCanonical kind query fragment) :
    ∀ c ∈ partsChars query fragment, isPadding c = false := by
  refine List.forall_mem_append.mpr ⟨?_, ?_⟩
  · cases query with
    | none => exact nofun
    | some text =>
      refine List.forall_mem_cons.mpr ⟨by decide, not_padding_of_clean ?_ (parts.query text rfl)⟩
      cases kind <;> decide
  · cases fragment with
    | none => exact nofun
    | some text =>
      exact List.forall_mem_cons.mpr ⟨by decide, not_padding_of_clean (by decide) (parts.fragment text rfl)⟩

theorem not_padding_segments (clean : ∀ s ∈ segments, Clean reservedInPath s) :
    ∀ c ∈ Segment.chars segments, isPadding c = false := by
  intro c member
  rcases List.mem_flatMap.mp member with ⟨s, among, member⟩
  rcases List.mem_cons.mp member with rfl | member
  · rfl
  · exact not_padding_of_clean (by decide) (clean s among) c member

theorem fromTop_chars
    (canonical : ∀ s ∈ segments, s.Canonical (SchemeKind.ofScheme scheme))
    (topped : (SchemeKind.ofScheme scheme).isSpecial = true → segments ≠ [])
    (parts : PartsCanonical (SchemeKind.ofScheme scheme) query fragment) :
    fromTop scheme authority (Segment.chars segments ++ partsChars query fragment) =
      ⟨scheme, some authority, .rooted segments, query, fragment⟩ := by
  cases segments with
  | nil =>
    have other : (SchemeKind.ofScheme scheme).isSpecial = false :=
      Bool.eq_false_iff.mpr fun special => topped special rfl
    have pathless : (partsChars query fragment).head?.any (fun c => !endsPath c) = false := by
      cases first : (partsChars query fragment).head? with
      | none => rfl
      | some c => simp [endsPath_partsChars c first]
    rw [Segment.chars, List.flatMap_nil, List.nil_append, fromTop]
    simp only [other, pathless, readParts_chars parts]
    rfl
  | cons s rest =>
    have begins : (SchemeKind.ofScheme scheme).isSpecial || Option.any (fun c => !endsPath c) (some '/') := by
      rw [Option.any_some]
      exact Bool.or_true _
    have slash : isSlash (SchemeKind.ofScheme scheme) '/' = true := by
      cases SchemeKind.ofScheme scheme <;> rfl
    rw [Segment.chars, List.flatMap_cons, List.cons_append, List.cons_append, fromTop, List.head?_cons,
      if_pos begins, dropSlash, if_pos slash]
    exact withPath_chars canonical parts

theorem endless_of_partsChars_nil {kind : SchemeKind}
    (partless : partsChars (readParts kind (cs.dropWhile fun c => !endsPath c)).1
      (readParts kind (cs.dropWhile fun c => !endsPath c)).2 = []) :
    (cs.takeWhile fun c => !endsPath c) = cs := by
  have whole := List.takeWhile_append_dropWhile (p := fun c => !endsPath c) (l := cs)
  have stops := List.head?_dropWhile_not (fun c => !endsPath c) cs
  cases rest : cs.dropWhile fun c => !endsPath c with
  | nil => rwa [rest, List.append_nil] at whole
  | cons c rest =>
    rw [rest] at partless stops
    simp only [List.head?_cons, Bool.not_eq_false', endsPath, Bool.or_eq_true, beq_iff_eq] at stops
    rcases stops with rfl | rfl <;> cases partless

def behind (u : Uri) : List Char :=
  (match u.authority with
    | some a => '/' :: '/' :: a.chars
    | none => []) ++ (u.pathGuard ++ (u.path.chars ++ partsChars u.query u.fragment))

theorem chars_eq (u : Uri) : u.chars = u.scheme.toList ++ ':' :: u.behind := by
  rcases u with ⟨scheme, _ | authority, path, query, fragment⟩ <;>
    simp only [chars, behind, partsChars, List.append_assoc, List.cons_append]

theorem behind_served (scheme : String) (authority : Authority) (segments : List Segment)
    (query fragment : Option (List Char)) :
    behind ⟨scheme, some authority, .rooted segments, query, fragment⟩ =
      '/' :: '/' :: (authority.chars ++ (Segment.chars segments ++ partsChars query fragment)) := rfl

theorem behind_rooted (scheme : String) (s : Segment) (rest : List Segment)
    (query fragment : Option (List Char)) :
    behind ⟨scheme, none, .rooted (s :: rest), query, fragment⟩ =
      if s = [] ∧ rest ≠ [] then '/' :: ('.' :: Segment.chars (s :: rest) ++ partsChars query fragment)
      else '/' :: (s ++ Segment.chars rest ++ partsChars query fragment) := by
  split
  · rename_i slashes
    rcases slashes with ⟨rfl, more⟩
    cases rest with
    | nil => exact absurd rfl more
    | cons next rest => rfl
  · rename_i single
    have unguarded : pathGuard ⟨scheme, none, .rooted (s :: rest), query, fragment⟩ = [] := by
      unfold pathGuard
      split
      · rename_i path
        cases path
        exact absurd ⟨rfl, List.cons_ne_nil _ _⟩ single
      · rfl
    rw [behind, unguarded]
    rfl

theorem behind_plain (scheme : String) (path : List Char) (query fragment : Option (List Char)) :
    behind ⟨scheme, none, .plain path, query, fragment⟩ = path ++ partsChars query fragment := rfl

theorem head?_ne_slash {s : Segment} (whole : Text.Whole (isSlash .other) s)
    (single : ¬ (s = [] ∧ segments ≠ [])) :
    (s ++ Segment.chars segments ++ partsChars query fragment).head? ≠ some '/' := by
  cases s with
  | nil =>
    have none : segments = [] := by
      by_contra more
      exact single ⟨rfl, more⟩
    rw [none]
    exact fun first => absurd (endsPath_partsChars '/' first) (by decide)
  | cons c s =>
    intro first
    cases first
    exact absurd (whole '/' List.mem_cons_self) (by decide)

variable [Idna]

inductive Canonical : Uri → Prop
  | served {scheme : String} {authority : Authority} {segments : List Segment}
    {query fragment : Option (List Char)} (named : IsScheme scheme)
    (elsewhere : SchemeKind.ofScheme scheme ≠ .file) (served : authority.Canonical scheme)
    (kept : ∀ s ∈ segments, s.Canonical (SchemeKind.ofScheme scheme))
    (topped : (SchemeKind.ofScheme scheme).isSpecial = true → segments ≠ [])
    (parts : PartsCanonical (SchemeKind.ofScheme scheme) query fragment) :
    Canonical ⟨scheme, some authority, .rooted segments, query, fragment⟩
  | rooted {scheme : String} {segments : List Segment} {query fragment : Option (List Char)}
    (named : IsScheme scheme) (other : SchemeKind.ofScheme scheme = .other)
    (kept : ∀ s ∈ segments, s.Canonical .other) (topped : segments ≠ [])
    (parts : PartsCanonical .other query fragment) :
    Canonical ⟨scheme, none, .rooted segments, query, fragment⟩
  | plain {scheme : String} {path : List Char} {query fragment : Option (List Char)}
    (named : IsScheme scheme) (other : SchemeKind.ofScheme scheme = .other)
    (clean : Clean isControl path) (inside : ∀ c ∈ path, endsPath c = false)
    (unslashed : path.head? ≠ some '/')
    (last : partsChars query fragment = [] → ∀ c ∈ path.getLast?, isPadding c = false)
    (parts : PartsCanonical .other query fragment) :
    Canonical ⟨scheme, none, .plain path, query, fragment⟩

theorem read_written (named : IsScheme scheme) (last : ∀ c ∈ rest.getLast?, isPadding c = false) :
    read (String.ofList (scheme.toList ++ ':' :: rest)) = readWithScheme scheme rest := by
  have kept : unpadded (scheme.toList ++ ':' :: rest) = scheme.toList ++ ':' :: rest := by
    refine unpadded_of_ends (fun c first => ?_) (fun c ending => ?_)
    · cases front : scheme.toList with
      | nil =>
        rw [front] at first
        cases first
        rfl
      | cons d more =>
        rw [front] at first
        cases first
        exact isSchemeChar_induction (P := (isPadding · = false))
          (named.allowed c (front ▸ List.mem_cons_self)) (by decide)
    · rw [List.getLast?_append, List.getLast?_cons, Option.some_or] at ending
      cases ending
      cases known : rest.getLast? with
      | none => rfl
      | some c => exact last c known
  rw [read, String.toList_ofList, kept, splitScheme_written named]

theorem readServed_chars (served : authority.Canonical scheme)
    (canonical : ∀ s ∈ segments, s.Canonical (SchemeKind.ofScheme scheme))
    (topped : (SchemeKind.ofScheme scheme).isSpecial = true → segments ≠ [])
    (parts : PartsCanonical (SchemeKind.ofScheme scheme) query fragment) :
    readServed scheme (authority.chars ++ (Segment.chars segments ++ partsChars query fragment)) =
      if authority.host.Labelled (SchemeKind.ofScheme scheme) then
        .ok ⟨scheme, some authority, .rooted segments, query, fragment⟩
      else .error .domainName := by
  have ends : Ends (Segment.chars segments ++ partsChars query fragment) := by
    cases segments with
    | nil => exact fun c first => .inr (endsPath_partsChars c first)
    | cons s rest => exact fun c first => .inl (Option.some.inj first).symm
  rw [readServed, served.takeAuthority ends, ← fromTop_chars canonical topped parts]
  by_cases labelled : authority.host.Labelled (SchemeKind.ofScheme scheme)
  · rw [if_pos labelled, if_pos labelled]
    rfl
  · rw [if_neg labelled, if_neg labelled]
    rfl

theorem readOther_slash (single : rest.head? ≠ some '/') :
    readOther scheme ('/' :: rest) = .ok (withPath scheme none [] rest) := by
  unfold readOther
  split
  · rename_i same
    cases same
    exact absurd rfl single
  · rename_i same
    cases same
    rfl
  · rename_i other
    exact absurd rfl (other rest)

namespace Canonical

theorem isScheme (canonical : u.Canonical) : IsScheme u.scheme := by
  cases canonical with
  | served named | rooted named | plain named => exact named

theorem dropWhile_slash_authority (served : authority.Canonical scheme)
    (special : (SchemeKind.ofScheme scheme).isSpecial = true) :
    (authority.chars ++ rest).dropWhile (isSlash .web) = authority.chars ++ rest := by
  have hosted : authority.chars ≠ [] := by
    rw [authority.chars_eq]
    refine List.append_ne_nil_of_left_ne_nil (List.append_ne_nil_of_right_ne_nil _ ?_) _
    exact served.host.ne_none special
  cases front : authority.chars with
  | nil => exact absurd front hosted
  | cons c more =>
    have inside := (served.inside c (front ▸ List.mem_cons_self)).2
    have goesOn := endsAuthority_of_endsPort .web inside
    rw [List.cons_append, List.dropWhile_cons_of_neg]
    exact Bool.eq_false_iff.mp (Bool.or_eq_false_iff.mp goesOn).1

theorem scheme_ne_file (canonical : u.Canonical) : u.scheme ≠ "file" := by
  cases canonical with
  | served named elsewhere =>
    rintro rfl
    exact elsewhere (by decide)
  | rooted named other | plain named other =>
    rintro rfl
    exact absurd other (by decide)

theorem kept_behind (canonical : u.Canonical) :
    (∀ c ∈ u.behind, isBreak c = false) ∧ ∀ c ∈ u.behind.getLast?, isPadding c = false := by
  have apart {cs : List Char} (outside : ∀ c ∈ cs, isPadding c = false) :
      (∀ c ∈ cs, isBreak c = false) ∧ ∀ c ∈ cs.getLast?, isPadding c = false :=
    ⟨fun c member => isBreak_of_not_padding (outside c member),
      fun c last => outside c (List.mem_of_getLast? last)⟩
  cases canonical with
  | served named elsewhere served kept topped parts =>
    rw [behind_served]
    refine apart (List.forall_mem_cons.mpr ⟨by decide, List.forall_mem_cons.mpr ⟨by decide, ?_⟩⟩)
    refine List.forall_mem_append.mpr ⟨fun c member => (served.inside c member).1, ?_⟩
    exact List.forall_mem_append.mpr ⟨not_padding_segments fun s among => (kept s among).clean,
      not_padding_partsChars parts⟩
  | rooted named other kept topped parts =>
    refine apart (List.forall_mem_append.mpr ⟨nofun, List.forall_mem_append.mpr ⟨?_, ?_⟩⟩)
    · unfold pathGuard
      split
      · exact List.forall_mem_cons.mpr ⟨rfl, List.forall_mem_singleton.mpr rfl⟩
      · exact nofun
    · exact List.forall_mem_append.mpr ⟨not_padding_segments fun s among => (kept s among).clean,
      not_padding_partsChars parts⟩
  | plain named other clean inside unslashed last parts =>
    have outside := not_padding_partsChars parts
    rw [behind_plain]
    refine ⟨List.forall_mem_append.mpr ⟨fun c member => ?_, fun c member => ?_⟩, fun c ending => ?_⟩
    · exact Text.ascii_induction (P := fun c => isControl c = false → isBreak c = false) (by decide)
        (clean c member).1 (clean c member).2
    · exact isBreak_of_not_padding (outside c member)
    · rw [List.getLast?_append] at ending
      cases known : (partsChars _ _).getLast? with
      | none =>
        rw [known, Option.none_or] at ending
        exact last (List.getLast?_eq_none_iff.mp known) c ending
      | some d =>
        rw [known, Option.some_or] at ending
        cases ending
        exact outside c (List.mem_of_getLast? known)

theorem readWithScheme_behind (canonical : u.Canonical) :
    readWithScheme u.scheme u.behind = if u.Labelled then .ok u else .error .domainName := by
  have whole : unbroken u.behind = u.behind := unbroken_of_not_break canonical.kept_behind.1
  cases canonical with
  | @served scheme authority segments query fragment named elsewhere served kept topped parts =>
    have behindSlashes := readServed_chars served kept topped parts
    have hosted : Labelled ⟨scheme, some authority, .rooted segments, query, fragment⟩ ↔
        authority.host.Labelled (SchemeKind.ofScheme scheme) := by simp [Labelled]
    rw [behind_served] at whole ⊢
    simp only [hosted]
    unfold readWithScheme
    split
    · rename_i web
      rw [whole, List.dropWhile_cons_of_pos rfl, List.dropWhile_cons_of_pos rfl,
        dropWhile_slash_authority served (by rw [web]; rfl)]
      exact behindSlashes
    · rename_i file
      exact absurd file elsewhere
    · rw [whole, readOther]
      exact behindSlashes
  | @rooted scheme segments query fragment named other kept topped parts =>
    have canonical : ∀ s ∈ segments, s.Canonical (SchemeKind.ofScheme scheme) := by rwa [other]
    have behindPath : PartsCanonical (SchemeKind.ofScheme scheme) query fragment := by rwa [other]
    have hostless : Labelled ⟨scheme, none, .rooted segments, query, fragment⟩ := nofun
    rw [readWithScheme, other, if_pos hostless]
    simp only [whole]
    cases segments with
    | nil => exact absurd rfl topped
    | cons s rest =>
      rw [behind_rooted]
      split
      · have dotted : ('.' :: Segment.chars (s :: rest) ++ partsChars query fragment).head? ≠ some '/' :=
          fun first => absurd (Option.some.inj first) (by decide)
        rw [readOther_slash dotted]
        exact congrArg Except.ok (withPath_dot topped canonical behindPath)
      · rename_i single
        rw [readOther_slash (head?_ne_slash (kept s List.mem_cons_self).whole single)]
        exact congrArg Except.ok (withPath_chars canonical behindPath)
  | @plain scheme path query fragment named other clean inside unslashed last parts =>
    have beginning : (path ++ partsChars query fragment).head? ≠ some '/' := by
      cases path with
      | nil => exact fun first => absurd (endsPath_partsChars '/' first) (by decide)
      | cons c path => exact unslashed
    have split := Text.span_append (fun c => !endsPath c) path (partsChars query fragment)
      (fun c member => by rw [inside c member]; rfl)
      (fun c first => by rw [endsPath_partsChars c first]; rfl)
    have hostless : Labelled ⟨scheme, none, .plain path, query, fragment⟩ := nofun
    rw [readWithScheme, other, if_pos hostless]
    simp only [whole]
    rw [behind_plain]
    unfold readOther
    split
    · rename_i same
      exact absurd (by rw [same]; rfl) beginning
    · rename_i same
      exact absurd (by rw [same]; rfl) beginning
    · rw [split]
      simp only [readParts_chars parts, Percent.encode_of_clean clean]

theorem read_text (canonical : u.Canonical) :
    read u.text = if u.Labelled then .ok u else .error .domainName := by
  rw [text, chars_eq, read_written canonical.isScheme canonical.kept_behind.2, canonical.readWithScheme_behind]

theorem labelled_or_writes (canonical : u.Canonical) :
    u.Labelled ∨ ∃ a ascii, u.authority = some a ∧ a.host = .name ascii ∧ Idna.Writes ascii := by
  cases canonical with
  | @served scheme authority segments query fragment named elsewhere served kept topped parts =>
    rcases served.host.labelled_or_writes with labelled | ⟨ascii, same, writes⟩
    · refine .inl fun a known => ?_
      cases known
      exact labelled
    · exact .inr ⟨authority, ascii, rfl, same, writes⟩
  | rooted | plain => exact .inl nofun

end Canonical

theorem canonical_fromTop (named : IsScheme scheme) (elsewhere : SchemeKind.ofScheme scheme ≠ .file)
    (served : authority.Canonical scheme) (cs : List Char) : (fromTop scheme authority cs).Canonical := by
  unfold fromTop
  simp only
  split
  · refine .served named elsewhere served (canonical_follow_readSegments _ _) (fun _ => ?_)
      (canonical_readParts _ _)
    exact Segment.follow_ne_nil [] (mt List.map_eq_nil_iff.mp (Text.pieces_ne_nil _ _))
  · rename_i pathless
    rw [Bool.or_eq_true, not_or] at pathless
    exact .served named elsewhere served nofun (fun special => absurd special pathless.1)
      (canonical_readParts _ _)

theorem canonical_of_readServed (named : IsScheme scheme) (elsewhere : SchemeKind.ofScheme scheme ≠ .file)
    (found : readServed scheme cs = .ok u) : u.Canonical := by
  rcases Outcome.bind_eq_ok.mp found with ⟨⟨authority, behind⟩, taken, same⟩
  cases same
  exact canonical_fromTop named elsewhere (canonical_of_takeAuthority taken) behind

theorem canonical_of_readOther (named : IsScheme scheme) (other : SchemeKind.ofScheme scheme = .other)
    (last : ∀ c ∈ cs.getLast?, isPadding c = false) (found : readOther scheme cs = .ok u) : u.Canonical := by
  have elsewhere : SchemeKind.ofScheme scheme ≠ .file := by rw [other]; decide
  unfold readOther at found
  split at found
  · exact canonical_of_readServed named elsewhere found
  · cases found
    have kept := canonical_follow_readSegments (SchemeKind.ofScheme scheme)
    have parts := canonical_readParts (SchemeKind.ofScheme scheme)
    rw [other] at kept parts
    unfold withPath
    rw [other]
    refine .rooted named other (kept _) ?_ (parts _)
    exact Segment.follow_ne_nil [] (mt List.map_eq_nil_iff.mp (Text.pieces_ne_nil _ _))
  · rename_i slashes slash
    rw [List.span_eq_takeWhile_dropWhile] at found
    cases found
    refine .plain named other (Percent.clean_encode (by decide)) ?_ ?_ (fun partless => ?_)
      (canonical_readParts _ _)
    · refine Percent.forall_mem_encode (by decide) fun c member _ _ => ?_
      simpa using List.mem_takeWhile_imp member
    · refine fun first => Percent.head?_encode (P := (· ≠ '/')) (by decide) (fun c front => ?_) '/' first rfl
      rintro rfl
      cases cs with
      | nil => cases front
      | cons d rest =>
        rw [List.takeWhile_cons] at front
        split at front
        · cases front
          exact slash rest rfl
        · cases front
    · -- Without a query and a fragment the path is all of the text.
      have all := endless_of_partsChars_nil partless
      rw [all]
      exact Percent.getLast?_encode (by decide) last

theorem exists_of_readFile (found : readFile cs = .ok u) : ∃ host place path, u = fileUri host place path := by
  unfold readFile at found
  split at found
  · simp only at found
    split at found
    · cases found
      exact ⟨_, _, _, rfl⟩
    · rcases Outcome.map_eq_ok.mp found with ⟨host, -, same⟩
      rw [← same, hostedFile]
      split <;> exact ⟨_, _, _, rfl⟩
  · cases found
    exact ⟨_, _, _, rfl⟩

theorem canonical_or_file {text : String} (found : read text = .ok u) :
    u.Canonical ∨ ∃ host place path, u = fileUri host place path := by
  unfold read at found
  split at found
  · rename_i scheme rest split
    rcases isScheme_of_splitScheme split with ⟨named, front, whole⟩
    unfold readWithScheme at found
    split at found
    · rename_i web
      exact .inl (canonical_of_readServed named (by rw [web]; decide) found)
    · exact .inr (exists_of_readFile found)
    · rename_i other
      refine .inl (canonical_of_readOther named other (getLast?_unbroken fun c last => ?_) found)
      refine not_padding_last_unpadded text.toList c ?_
      rw [← whole, List.getLast?_append, last]
      rfl
  · cases found

theorem canonical_of_read {text : String} (found : read text = .ok u) (elsewhere : u.scheme ≠ "file") :
    u.Canonical := by
  rcases canonical_or_file found with canonical | ⟨host, place, path, rfl⟩
  · exact canonical
  · exact absurd rfl elsewhere

end TaintScan.Uri
