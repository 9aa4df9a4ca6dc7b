import TaintScan.Proofs.Uri.Authority

namespace TaintScan.Uri

variable {kind : SchemeKind} {scheme : String} {authority : Option Authority}
  {query fragment : Option (List Char)}

namespace Segment

structure Canonical (kind : SchemeKind) (s : Segment) : Prop where
  clean : Clean reservedInPath s
  whole : Text.Whole (isSlash kind) s
  named : s.isDot = false
  below : s.isDoubleDot = false

theorem follow_of_dotless {segments : List Segment} (done : List Segment)
    (dotless : ∀ s ∈ segments, s.isDot = false ∧ s.isDoubleDot = false) :
    follow done segments = done ++ segments := by
  induction segments generalizing done with
  | nil => rw [follow, List.append_nil]
  | cons s rest ih =>
    obtain ⟨⟨named, below⟩, others⟩ := List.forall_mem_cons.mp dotless
    cases rest with
    | nil => rw [follow, if_neg (Bool.eq_false_iff.mp below), if_neg (Bool.eq_false_iff.mp named)]
    | cons next rest =>
      rw [follow, if_neg (Bool.eq_false_iff.mp below), if_neg (Bool.eq_false_iff.mp named), ih _ others,
        List.append_assoc, List.singleton_append]
      exact List.cons_ne_nil _ _

theorem mem_of_mem_up {done : List Segment} {s : Segment} (member : s ∈ up done) : s ∈ done := by
  unfold up at member
  split at member
  · split at member
    · exact member
    · exact List.dropLast_subset done member
  · exact member

/-- Segments that name no place are the only ones to come along; a dot at the end leaves an empty one. -/
theorem forall_mem_follow {P : Segment → Prop} {segments : List Segment} (done : List Segment)
    (empty : P []) (before : ∀ s ∈ done, P s)
    (along : ∀ s ∈ segments, s.isDot = false → s.isDoubleDot = false → P s) :
    ∀ s ∈ follow done segments, P s := by
  have last {done : List Segment} {new : Segment} (before : ∀ s ∈ done, P s) (holds : P new) :
      ∀ s ∈ done ++ [new], P s :=
    List.forall_mem_append.mpr ⟨before, List.forall_mem_singleton.mpr holds⟩
  have above {done : List Segment} (before : ∀ s ∈ done, P s) : ∀ s ∈ up done, P s :=
    fun s member => before s (mem_of_mem_up member)
  fun_induction follow done segments with
  | case1 done => exact before
  | case2 done s below => exact last (above before) empty
  | case3 done s below dot => exact last before empty
  | case4 done s below dot =>
    refine last before (along s List.mem_cons_self ?_ ?_)
    · exact Bool.eq_false_iff.mpr dot
    · exact Bool.eq_false_iff.mpr below
  | case5 done s rest more below ih => exact ih (above before) (List.forall_mem_cons.mp along).2
  | case6 done s rest more below dot ih => exact ih before (List.forall_mem_cons.mp along).2
  | case7 done s rest more below dot ih =>
    obtain ⟨here, along⟩ := List.forall_mem_cons.mp along
    exact ih (last before (here (Bool.eq_false_iff.mpr dot) (Bool.eq_false_iff.mpr below))) along

theorem follow_ne_nil {segments : List Segment} (done : List Segment) (some : segments ≠ []) :
    follow done segments ≠ [] := by
  fun_induction follow done segments with
  | case1 => exact absurd rfl some
  | case2 | case3 | case4 => exact List.append_ne_nil_of_right_ne_nil _ (List.cons_ne_nil _ _)
  | case5 _ _ _ more _ ih | case6 _ _ _ more _ _ ih | case7 _ _ _ more _ _ ih => exact ih more

end Segment

theorem canonical_follow_readSegments (kind : SchemeKind) (cs : List Char) :
    ∀ s ∈ Segment.follow [] (readSegments kind cs), s.Canonical kind := by
  refine Segment.forall_mem_follow [] ⟨nofun, nofun, by decide, by decide⟩ nofun fun s member named below => ?_
  rcases List.mem_map.mp member with ⟨piece, inside, rfl⟩
  refine ⟨Percent.clean_encode (by decide), ?_, named, below⟩
  refine Percent.forall_mem_encode (P := (isSlash kind · = false)) (by cases kind <;> decide) ?_
  exact fun c member _ _ => Text.not_separates_of_mem_pieces piece inside c member

theorem readSegments_written {s : Segment} {rest : List Segment}
    (clean : ∀ piece ∈ s :: rest, Clean reservedInPath piece)
    (whole : ∀ piece ∈ s :: rest, Text.Whole (isSlash kind) piece) :
    readSegments kind (s ++ rest.flatMap ('/' :: ·)) = s :: rest := by
  obtain ⟨front, others⟩ := List.forall_mem_cons.mp whole
  have separating : isSlash kind '/' = true := by cases kind <;> rfl
  rw [readSegments, Text.pieces_flatMap front others separating]
  exact (List.map_congr_left fun piece member => Percent.encode_of_clean (clean piece member)).trans
    (List.map_id _)

structure PartsCanonical (kind : SchemeKind) (query fragment : Option (List Char)) : Prop where
  query : ∀ text ∈ query, Clean (if kind.isSpecial then reservedInSpecialQuery else reservedInQuery) text
  fragment : ∀ text ∈ fragment, Clean reservedInFragment text

def partsChars (query fragment : Option (List Char)) : List Char :=
  partChars '?' query ++ partChars '#' fragment

theorem endsPath_partsChars : ∀ c ∈ (partsChars query fragment).head?, endsPath c = true := by
  intro c first
  cases query with
  | some text =>
    cases first
    rfl
  | none =>
    cases fragment with
    | some text =>
      cases first
      rfl
    | none => cases first

theorem canonical_readParts (kind : SchemeKind) (cs : List Char) :
    PartsCanonical kind (readParts kind cs).1 (readParts kind cs).2 := by
  have escapes : Escapes (fun c =>
      (if kind.isSpecial then reservedInSpecialQuery else reservedInQuery) c = false) := by
    cases kind <;> decide
  fun_cases readParts kind cs with
  | case1 reserved rest query behind parts =>
    refine ⟨fun text same => ?_, fun text same => ?_⟩
    · cases same
      exact Percent.clean_encode escapes
    · cases behind with
      | nil => cases same
      | cons mark fragment =>
        cases same
        exact Percent.clean_encode (by decide)
  | case2 rest =>
    refine ⟨nofun, fun text same => ?_⟩
    cases same
    exact Percent.clean_encode (by decide)
  | case3 => exact ⟨nofun, nofun⟩

theorem readParts_chars (canonical : PartsCanonical kind query fragment) :
    readParts kind (partsChars query fragment) = (query, fragment) := by
  cases query with
  | none =>
    cases fragment with
    | none => rfl
    | some text =>
      rw [partsChars, partChars, partChars, List.nil_append, readParts]
      simp only [Percent.encode_of_clean (canonical.fragment text rfl)]
  | some asked =>
    have clean := canonical.query asked rfl
    have unmarked : ∀ c ∈ asked, (c != '#') = true := fun c member => by
      refine bne_iff_ne.mpr ?_
      rintro rfl
      have free := (clean _ member).2
      cases kind <;> exact absurd free (by decide)
    have parts : (asked ++ partChars '#' fragment).span (· != '#') = (asked, partChars '#' fragment) :=
      Text.span_append _ _ _ unmarked fun c first => by
        cases fragment with
        | none => cases first
        | some text =>
          cases first
          rfl
    rw [partsChars, partChars, List.cons_append, readParts]
    simp only [parts, Percent.encode_of_clean clean]
    cases fragment with
    | none => rfl
    | some text => simp only [partChars, Percent.encode_of_clean (canonical.fragment text rfl)]

theorem endsPath_of_clean {cs : List Char} (clean : Clean reservedInPath cs) :
    ∀ c ∈ cs, endsPath c = false := fun c member =>
  Text.ascii_induction (P := fun c => reservedInPath c = false → endsPath c = false) (by decide)
    (clean c member).1 (clean c member).2

theorem endsPath_segments {s : Segment} {rest : List Segment}
    (clean : ∀ piece ∈ s :: rest, Clean reservedInPath piece) :
    ∀ c ∈ s ++ rest.flatMap ('/' :: ·), endsPath c = false := by
  obtain ⟨front, others⟩ := List.forall_mem_cons.mp clean
  refine List.forall_mem_append.mpr ⟨endsPath_of_clean front, fun c member => ?_⟩
  rcases List.mem_flatMap.mp member with ⟨piece, among, member⟩
  rcases List.mem_cons.mp member with rfl | member
  · rfl
  · exact endsPath_of_clean (others piece among) c member

theorem withPath_written {s : Segment} {rest : List Segment}
    (clean : ∀ piece ∈ s :: rest, Clean reservedInPath piece)
    (whole : ∀ piece ∈ s :: rest, Text.Whole (isSlash (SchemeKind.ofScheme scheme)) piece)
    (parts : PartsCanonical (SchemeKind.ofScheme scheme) query fragment) :
    withPath scheme authority [] (s ++ rest.flatMap ('/' :: ·) ++ partsChars query fragment) =
      ⟨scheme, authority, .rooted (Segment.follow [] (s :: rest)), query, fragment⟩ := by
  have path := Text.span_append (fun c => !endsPath c) (s ++ rest.flatMap ('/' :: ·))
    (partsChars query fragment) (fun c member => by rw [endsPath_segments clean c member]; rfl)
    (fun c first => by rw [endsPath_partsChars c first]; rfl)
  rw [withPath, path]
  simp only [readSegments_written clean whole, readParts_chars parts]

theorem withPath_chars {s : Segment} {rest : List Segment}
    (canonical : ∀ piece ∈ s :: rest, piece.Canonical (SchemeKind.ofScheme scheme))
    (parts : PartsCanonical (SchemeKind.ofScheme scheme) query fragment) :
    withPath scheme authority [] (s ++ rest.flatMap ('/' :: ·) ++ partsChars query fragment) =
      ⟨scheme, authority, .rooted (s :: rest), query, fragment⟩ := by
  have followed : Segment.follow [] (s :: rest) = s :: rest :=
    Segment.follow_of_dotless [] fun piece member =>
      ⟨(canonical piece member).named, (canonical piece member).below⟩
  rw [withPath_written (fun piece member => (canonical piece member).clean)
    (fun piece member => (canonical piece member).whole) parts, followed]

theorem withPath_dot {segments : List Segment} (some : segments ≠ [])
    (canonical : ∀ piece ∈ segments, piece.Canonical (SchemeKind.ofScheme scheme))
    (parts : PartsCanonical (SchemeKind.ofScheme scheme) query fragment) :
    withPath scheme authority [] ('.' :: segments.flatMap ('/' :: ·) ++ partsChars query fragment) =
      ⟨scheme, authority, .rooted segments, query, fragment⟩ := by
  have dot : Clean reservedInPath ['.'] := by decide
  have whole : Text.Whole (isSlash (SchemeKind.ofScheme scheme)) ['.'] := by
    cases SchemeKind.ofScheme scheme <;> decide
  have followed : Segment.follow [] (['.'] :: segments) = segments := by
    rw [Segment.follow.eq_3 _ _ _ some]
    exact Segment.follow_of_dotless [] fun piece member =>
      ⟨(canonical piece member).named, (canonical piece member).below⟩
  rw [← List.singleton_append, withPath_written
    (List.forall_mem_cons.mpr ⟨dot, fun piece member => (canonical piece member).clean⟩)
    (List.forall_mem_cons.mpr ⟨whole, fun piece member => (canonical piece member).whole⟩) parts, followed]

end TaintScan.Uri
