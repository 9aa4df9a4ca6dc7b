import Mathlib.Data.List.Infix
import Mathlib.Data.List.TakeWhile
import TaintScan.Markup.Entity

namespace TaintScan.Markup

/-- The character of the reference that a text begins with, and the text behind the reference. -/
def leading? (cs : List Char) : Option (Char × List Char) :=
  match cs with
  | '&' :: rest =>
    match rest.dropWhile fun d => !endsReference d with
    | ';' :: behind => (reference? (rest.takeWhile fun d => !endsReference d)).map (·, behind)
    | _ => none
  | _ => none

section Leading

variable {cs rest behind : List Char} {c : Char}

theorem leading?_eq_some (h : leading? cs = some (c, behind)) :
    ∃ name, (∀ d ∈ name, d ≠ '&') ∧ cs = '&' :: (name ++ ';' :: behind) := by
  unfold leading? at h
  split at h
  · rename_i rest
    split at h
    · rename_i ends
      obtain ⟨d, -, same⟩ := Option.map_eq_some_iff.mp h
      cases same
      refine ⟨rest.takeWhile fun d => !endsReference d, fun d member => ?_, ?_⟩
      · have goesOn := List.mem_takeWhile_imp member
        rintro rfl
        simp [endsReference] at goesOn
      · rw [← ends, List.takeWhile_append_dropWhile]
    · cases h
  · cases h

theorem length_leading? (h : leading? cs = some (c, behind)) : behind.length + 2 ≤ cs.length := by
  obtain ⟨name, -, rfl⟩ := leading?_eq_some h
  simp only [List.length_cons, List.length_append]
  omega

theorem unescape_ampersand (rest : List Char) : unescape ('&' :: rest) =
    (leading? ('&' :: rest)).bind fun found => (unescape found.2).map (found.1 :: ·) := by
  rw [unescape, if_pos (by decide)]
  simp only [leading?]
  cases rest.dropWhile fun d => !endsReference d with
  | nil => rfl
  | cons mark behind =>
    by_cases ends : mark = ';'
    · subst ends
      cases reference? (rest.takeWhile fun d => !endsReference d) with
      | none => rfl
      | some d => rfl
    · simp [ends]

theorem unescape_plain (other : c ≠ '&') : unescape (c :: rest) = (unescape rest).map (c :: ·) := by
  rw [unescape, if_neg (by simpa using other)]

end Leading

/-- A text in which each reference that names a character is replaced by it, and every other ampersand
is kept with what follows it. -/
def replaceReferences (cs : List Char) : List Char :=
  match cs with
  | [] => []
  | c :: rest =>
    match _known : leading? (c :: rest) with
    | some (d, behind) => d :: replaceReferences behind
    | none => c :: replaceReferences rest
termination_by cs.length
decreasing_by
  · have := length_leading? _known
    omega
  · simp

def holdsKnown (raw : List Char) : Bool := raw.tails.any fun cs => (leading? cs).isSome

def holdsUnknown (raw : List Char) : Bool :=
  raw.tails.any fun cs => cs.head? == some '&' && (leading? cs).isNone

def mixes (raw : List Char) : Bool := holdsKnown raw && holdsUnknown raw

section Replacing

variable {cs raw behind : List Char} {c : Char}

theorem holdsKnown_cons (c : Char) (cs : List Char) :
    holdsKnown (c :: cs) = ((leading? (c :: cs)).isSome || holdsKnown cs) := by
  rw [holdsKnown, List.tails, List.any_cons, holdsKnown]

theorem holdsUnknown_cons (c : Char) (cs : List Char) : holdsUnknown (c :: cs) =
    ((c == '&' && (leading? (c :: cs)).isNone) || holdsUnknown cs) := by
  rw [holdsUnknown, List.tails, List.any_cons, holdsUnknown]
  rfl

theorem holdsUnknown_append {front : List Char} (plain : ∀ c ∈ front, c ≠ '&') (cs : List Char) :
    holdsUnknown (front ++ cs) = holdsUnknown cs := by
  induction front with
  | nil => rfl
  | cons c front ih =>
    obtain ⟨other, others⟩ := List.forall_mem_cons.mp plain
    rw [List.cons_append, holdsUnknown_cons, ih others, beq_eq_false_iff_ne.mpr other]
    rfl

theorem holdsUnknown_of_leading? (h : leading? cs = some (c, behind)) :
    holdsUnknown cs = holdsUnknown behind := by
  obtain ⟨name, plain, split⟩ := leading?_eq_some h
  have other : (';' == '&') = false := by decide
  rw [split] at h ⊢
  rw [holdsUnknown_cons, h, holdsUnknown_append plain, holdsUnknown_cons, other]
  rfl

theorem unescape_eq (raw : List Char) :
    unescape raw = if holdsUnknown raw then none else some (replaceReferences raw) := by
  fun_induction replaceReferences raw with
  | case1 =>
    rw [unescape]
    rfl
  | case2 c rest d behind known ih =>
    obtain ⟨name, -, split⟩ := leading?_eq_some known
    obtain ⟨rfl, -⟩ := List.cons.inj split
    rw [unescape_ampersand, known, holdsUnknown_of_leading? known, Option.bind_some, ih]
    cases holdsUnknown behind with
    | false => rfl
    | true => rfl
  | case3 c rest unknown ih =>
    by_cases ampersand : c = '&'
    · subst ampersand
      rw [unescape_ampersand, holdsUnknown_cons, unknown]
      rfl
    · rw [unescape_plain ampersand, holdsUnknown_cons, beq_eq_false_iff_ne.mpr ampersand, ih]
      cases holdsUnknown rest with
      | false => rfl
      | true => rfl

theorem replaceReferences_eq_self (none : holdsKnown raw = false) : replaceReferences raw = raw := by
  fun_induction replaceReferences raw with
  | case1 => rfl
  | case2 c rest d behind known =>
    rw [holdsKnown_cons, known] at none
    cases none
  | case3 c rest unknown ih =>
    rw [holdsKnown_cons, unknown] at none
    rw [ih none]

theorem length_replaceReferences (raw : List Char) :
    (replaceReferences raw).length + (holdsKnown raw).toNat ≤ raw.length := by
  fun_induction replaceReferences raw with
  | case1 => simp [holdsKnown, leading?]
  | case2 c rest d behind known ih =>
    have shorter := length_leading? known
    have one := Bool.toNat_le (holdsKnown (c :: rest))
    rw [List.length_cons]
    omega
  | case3 c rest unknown ih =>
    rw [holdsKnown_cons, unknown, List.length_cons, List.length_cons]
    simp only [Option.isSome_none, Bool.false_or]
    omega

theorem replaceReferences_eq_self_iff : replaceReferences raw = raw ↔ holdsKnown raw = false := by
  refine ⟨fun same => ?_, replaceReferences_eq_self⟩
  have shorter := length_replaceReferences raw
  rw [same] at shorter
  cases known : holdsKnown raw with
  | false => rfl
  | true =>
    rw [known, Bool.toNat_true] at shorter
    omega

theorem mem_replaceReferences (unknown : holdsUnknown raw = true) : '&' ∈ replaceReferences raw := by
  fun_induction replaceReferences raw with
  | case1 => cases unknown
  | case2 c rest d behind known ih =>
    rw [holdsUnknown_of_leading? known] at unknown
    exact List.mem_cons_of_mem _ (ih unknown)
  | case3 c rest none ih =>
    by_cases ampersand : c = '&'
    · rw [ampersand]
      exact List.mem_cons_self
    · rw [holdsUnknown_cons, beq_eq_false_iff_ne.mpr ampersand] at unknown
      exact List.mem_cons_of_mem _ (ih unknown)

theorem mem_of_holdsUnknown (unknown : holdsUnknown raw = true) : '&' ∈ raw := by
  obtain ⟨cs, suffix, ampersand⟩ := List.any_eq_true.mp unknown
  obtain ⟨first, -⟩ := Bool.and_eq_true_iff.mp ampersand
  exact (List.mem_tails _ _ |>.mp suffix).mem (List.mem_of_head? (by simpa using first))

end Replacing

end TaintScan.Markup
