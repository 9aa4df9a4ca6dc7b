import Mathlib.Data.List.Basic
import TaintScan.Plan.Generation
import TaintScan.Proofs.Random.Trial

namespace TaintScan

open TaintScan.Random (Always Gives)

namespace ElementType

variable (t : ElementType)

def position (id : ObjectId) : Nat := (t.elements.map ElementReference.id).idxOf id

/-- Children, told by their references, break none of the bounds that hold from above. -/
structure Arranges (limits : Limits) (targets : List ObjectId) : Prop where
  declared : ∀ id ∈ targets, ∃ r ∈ t.elements, r.id = id
  ordered : t.arrangement = .sequence → targets.Pairwise fun a b => t.position a ≤ t.position b
  most : t.arrangement ≠ .choice → ∀ r ∈ t.elements,
    targets.count r.id ≤ (limits.occurrenceUpperBound r.minOccurs r.maxOccurs).toNat
  single : t.arrangement = .choice → targets.length ≤ 1

structure Fills (targets : List ObjectId) : Prop where
  least : t.arrangement ≠ .choice → ∀ r ∈ t.elements, r.minOccurs.toNat ≤ targets.count r.id
  chosen : t.arrangement = .choice → t.elements ≠ [] → targets.length = 1

variable {t}

theorem Arranges.nil {limits : Limits} : t.Arranges limits [] := ⟨by simp, by simp, by simp, by simp⟩

theorem Arranges.of_prefix {limits : Limits} {front targets : List ObjectId}
    (h : t.Arranges limits targets) (cut : front <+: targets) : t.Arranges limits front := by
  refine ⟨fun id member => h.declared id (cut.subset member), fun shape => ?_, fun shape r member => ?_,
    fun shape => Nat.le_trans cut.length_le (h.single shape)⟩
  · exact (h.ordered shape).sublist cut.sublist
  · exact Nat.le_trans (cut.sublist.count_le r.id) (h.most shape r member)

end ElementType

namespace Limits

theorem toNat_max (a b : UInt32) : (max a b).toNat = max a.toNat b.toNat := by
  have larger : max a b = if a ≤ b then b else a := rfl
  rw [larger]
  split
  · rename_i ordered
    exact (Nat.max_eq_right (UInt32.le_iff_toNat_le.mp ordered)).symm
  · rename_i reversed
    rw [UInt32.le_iff_toNat_le] at reversed
    omega

theorem least_le_occurrenceUpperBound (limits : Limits) (least : UInt32) (most : Option UInt32) :
    least.toNat ≤ (limits.occurrenceUpperBound least most).toNat := by
  cases most with
  | some most =>
    rw [occurrenceUpperBound, toNat_max]
    omega
  | none =>
    rw [occurrenceUpperBound, toNat_max]
    omega

end Limits

namespace Plan

variable {settings : GenerationSettings}

/-- References repeated within their bounds, each behind those declared before it. -/
structure Repeats (limits : Limits) (references planned : List ElementReference) : Prop where
  subset : ∀ r ∈ planned, r ∈ references
  least : ∀ r ∈ references, r.minOccurs.toNat ≤ (planned.map ElementReference.id).count r.id
  most : ∀ r ∈ references, (planned.map ElementReference.id).count r.id ≤
    (limits.occurrenceUpperBound r.minOccurs r.maxOccurs).toNat
  ordered : (planned.map ElementReference.id).Pairwise fun a b =>
    (references.map ElementReference.id).idxOf a ≤ (references.map ElementReference.id).idxOf b

theorem Repeats.cons {limits : Limits} {first : ElementReference}
    {rest others : List ElementReference} {count : Nat} (h : Repeats limits rest others)
    (fresh : first.id ∉ rest.map ElementReference.id) (least : first.minOccurs.toNat ≤ count)
    (most : count ≤ (limits.occurrenceUpperBound first.minOccurs first.maxOccurs).toNat) :
    Repeats limits (first :: rest) (List.replicate count first ++ others) := by
  have apart : ∀ id ∈ others.map ElementReference.id, first.id ≠ id := by
    rintro id member rfl
    obtain ⟨r, inside, same⟩ := List.mem_map.mp member
    exact fresh (same ▸ List.mem_map_of_mem (h.subset r inside))
  have own : ((List.replicate count first ++ others).map ElementReference.id).count first.id =
      count := by
    have none : (others.map ElementReference.id).count first.id = 0 :=
      List.count_eq_zero.mpr fun member => apart _ member rfl
    simp [none]
  have other : ∀ r ∈ rest, ((List.replicate count first ++ others).map ElementReference.id).count r.id =
      (others.map ElementReference.id).count r.id := by
    intro r member
    have differ : first.id ≠ r.id := fun same => fresh (same ▸ List.mem_map_of_mem member)
    simp [List.count_replicate, differ]
  refine ⟨fun r member => ?_, ?_, ?_, ?_⟩
  · rcases List.mem_append.mp member with copy | later
    · exact List.eq_of_mem_replicate copy ▸ List.mem_cons_self
    · exact List.mem_cons_of_mem first (h.subset r later)
  · rw [List.forall_mem_cons, own]
    exact ⟨least, fun r member => other r member ▸ h.least r member⟩
  · rw [List.forall_mem_cons, own]
    exact ⟨most, fun r member => other r member ▸ h.most r member⟩
  · rw [List.map_append, List.map_replicate, List.pairwise_append]
    refine ⟨List.pairwise_replicate.mpr (.inr (Nat.le_refl _)), ?_, fun a copy b _ => ?_⟩
    · refine h.ordered.imp_of_mem fun one two ordered => ?_
      rw [List.map_cons, List.idxOf_cons_ne _ (apart _ one), List.idxOf_cons_ne _ (apart _ two)]
      exact Nat.succ_le_succ ordered
    · rw [List.eq_of_mem_replicate copy, List.map_cons, List.idxOf_cons_self]
      exact Nat.zero_le _

theorem repeatReferences_repeats {references : List ElementReference}
    (distinct : (references.map ElementReference.id).Nodup) :
    Always (repeatReferences settings references) (Repeats settings.limits references) := by
  induction references with
  | nil => exact .pure ⟨by simp, by simp, by simp, by simp⟩
  | cons first rest ih =>
    obtain ⟨fresh, distinct⟩ := List.nodup_cons.mp distinct
    have bounds : (first.minOccurs.toNat : Int) ≤
        (settings.limits.occurrenceUpperBound first.minOccurs first.maxOccurs).toNat :=
      Int.ofNat_le.mpr (settings.limits.least_le_occurrenceUpperBound _ _)
    refine .bind (Random.between_mem .narrow bounds) fun count within => ?_
    refine .bind (ih distinct) fun others known => .pure ?_
    exact known.cons fresh (by omega) (by omega)

theorem arrangeChildren_arranges {t : ElementType}
    (distinct : (t.elements.map ElementReference.id).Nodup) :
    Always (arrangeChildren settings t) fun planned => (∀ r ∈ planned, r ∈ t.elements) ∧
      t.Arranges settings.limits (planned.map ElementReference.id) ∧
      t.Fills (planned.map ElementReference.id) := by
  have declared : ∀ planned : List ElementReference, (∀ r ∈ planned, r ∈ t.elements) →
      ∀ id ∈ planned.map ElementReference.id, ∃ r ∈ t.elements, r.id = id := by
    intro planned known id member
    obtain ⟨r, inside, same⟩ := List.mem_map.mp member
    exact ⟨r, known r inside, same⟩
  unfold arrangeChildren
  cases shape : t.arrangement with
  | sequence =>
    intro source
    have h : Repeats settings.limits t.elements _ := repeatReferences_repeats distinct source
    exact ⟨h.subset, ⟨declared _ h.subset, fun _ => h.ordered, fun _ => h.most, by simp [shape]⟩,
      fun _ => h.least, by simp [shape]⟩
  | all =>
    refine .bind (repeatReferences_repeats distinct) fun planned h source => ?_
    have shuffled := Random.shuffle_perm planned source
    have same := fun id => (shuffled.map ElementReference.id).count_eq id
    have subset := fun r member => h.subset r (shuffled.mem_iff.mp member)
    refine ⟨subset, ⟨declared _ subset, by simp [shape], fun _ r member => ?_, by simp [shape]⟩,
      fun _ r member => ?_, by simp [shape]⟩
    · exact same r.id ▸ h.most r member
    · exact same r.id ▸ h.least r member
  | choice =>
    by_cases some : t.elements = []
    · have none : Random.choose? t.elements = pure none := by simp [Random.choose?, some]
      rw [none]
      exact .pure (P := _) ⟨by simp, ⟨by simp, by simp, by simp, by simp⟩, by simp [shape],
        fun _ given => absurd some given⟩
    · refine .bind (Random.choose?_mem some) fun chosen known => .pure ?_
      obtain ⟨r, member, rfl⟩ := known
      have subset : ∀ q ∈ [r], q ∈ t.elements := by simpa using member
      exact ⟨subset, ⟨declared _ subset, by simp [shape], by simp [shape], by simp⟩, by simp [shape],
        by simp⟩

theorem chooseGaps_some {count : Nat} (some : 0 < count) :
    Gives (chooseGaps settings count) (fun gaps => gaps.length = count ∧ true ∈ gaps)
      fun cause => cause = .probability ∧ settings.rawContentProbability.isNaN = true := by
  refine .bind (Random.times_gives (Random.chance_gives _) count) fun gaps known => ?_
  split
  · rename_i taken
    obtain ⟨gap, member, taken⟩ := List.any_eq_true.mp taken
    exact .pure ⟨known.1, taken ▸ member⟩
  · refine .bind (.lift (Random.below_lt .wide some)) fun forced inside => .pure ?_
    exact ⟨by simp, List.mem_map.mpr ⟨forced, List.mem_range.mpr inside, by simp⟩⟩

end Plan

end TaintScan
