import TaintScan.Random.Draw

namespace TaintScan.Random

variable {α β : Type}

def Always (d : Draw α) (P : α → Prop) : Prop := ∀ source, P (d source).1

namespace Always

variable {d : Draw α} {P : α → Prop} {Q : β → Prop}

theorem pure {a : α} (h : P a) : Always (Pure.pure a) P := fun _ => h

theorem bind {f : α → Draw β} (first : Always d P) (next : ∀ a, P a → Always (f a) Q) :
    Always (d >>= f) Q := fun source => next (d source).1 (first source) (d source).2

theorem map {f : α → β} (first : Always d P) (next : ∀ a, P a → Q (f a)) : Always (f <$> d) Q :=
  fun source => next (d source).1 (first source)

theorem trivial (d : Draw α) : Always d fun _ => True := fun _ => True.intro

end Always

theorem Width.draw_lt (w : Width) : Always w.draw (· < w.count) := by
  cases w with
  | narrow => exact Always.map (.trivial _) fun v _ => UInt32.toNat_lt v
  | wide => exact Always.map (.trivial _) fun v _ => UInt64.toNat_lt v

theorem Width.scale_lt {w : Width} {v n : Nat} (h : v < w.count) (some : 0 < n) :
    v * n / w.count < n := by
  apply Nat.div_lt_of_lt_mul
  exact Nat.mul_lt_mul_of_pos_right h some

theorem scaledWord_lt (w : Width) {n : Nat} (some : 0 < n) (tries : Nat) :
    Always (scaledWord w n tries) (· < n) := by
  induction tries with
  | zero => exact Always.bind w.draw_lt fun v h => .pure (Width.scale_lt h some)
  | succ tries ih =>
    refine Always.bind w.draw_lt fun v h => ?_
    split
    · exact .pure (Width.scale_lt h some)
    · exact ih

theorem below_lt (w : Width) {n : Nat} (some : 0 < n) : Always (below w n) (· < n) := by
  unfold below
  split
  · rename_i full
    exact full ▸ w.draw_lt
  · exact scaledWord_lt w some patience

theorem between_mem (w : Width) {low high : Int} (some : low ≤ high) :
    Always (between w low high) fun n => low ≤ n ∧ n ≤ high := by
  have count : ((high - low + 1).toNat : Int) = high - low + 1 := Int.toNat_of_nonneg (by omega)
  have positive : 0 < (high - low + 1).toNat := by omega
  unfold between
  refine Always.bind (below_lt w positive) fun offset inside => ?_
  split
  · -- The offset is a whole word: the remainder keeps the result in the range.
    have nonneg := Int.emod_nonneg (offset - low) (b := (high - low + 1).toNat) (by omega)
    have less := Int.emod_lt_of_pos (offset - low) (b := (high - low + 1).toNat) (by omega)
    exact .pure ⟨by omega, by omega⟩
  · exact .pure ⟨by omega, by omega⟩

theorem choose?_mem {items : List α} (some : items ≠ []) :
    Always (choose? items) fun chosen => ∃ a ∈ items, chosen = Option.some a := by
  have length : 0 < items.length := List.length_pos_iff.mpr some
  unfold choose?
  rw [if_neg (by simpa using some)]
  refine Always.bind (below_lt .narrow length) fun i h => ?_
  exact .pure ⟨items[i], List.getElem_mem h, List.getElem?_eq_getElem h⟩

theorem choose?_subset (items : List α) :
    Always (choose? items) fun chosen => ∀ a ∈ chosen, a ∈ items := by
  by_cases some : items = []
  · subst some
    exact .pure fun a h => nomatch h
  · intro source
    obtain ⟨a, member, chosen⟩ := choose?_mem some source
    rw [chosen]
    intro b h
    exact Option.some.inj h ▸ member

theorem times_succ (n : Nat) (d : Draw α) (source : Source) :
    (times (n + 1) d source).1 = (d source).1 :: (times n d (d source).2).1 := rfl

theorem times_all {d : Draw α} {P : α → Prop} (each : Always d P) (n : Nat) :
    Always (times n d) fun results => results.length = n ∧ ∀ a ∈ results, P a := by
  induction n with
  | zero => exact .pure ⟨rfl, by simp⟩
  | succ n ih =>
    refine .bind each fun a this => .bind ih fun others known => .pure ?_
    exact ⟨congrArg (· + 1) known.1, List.forall_mem_cons.mpr ⟨this, known.2⟩⟩

theorem swapIfInBounds_perm (items : Array α) (i j : Nat) :
    (items.swapIfInBounds i j).toList.Perm items.toList := by
  rw [Array.swapIfInBounds_def]
  split
  · split
    · exact Array.perm_iff_toList_perm.mp (Array.swap_perm _ _)
    · exact .refl _
  · exact .refl _

theorem shuffleFrom_perm (n : Nat) (items : Array α) :
    Always (shuffleFrom n items) fun shuffled => shuffled.toList.Perm items.toList := by
  induction n generalizing items with
  | zero => exact .pure (.refl _)
  | succ n ih =>
    refine Always.bind (.trivial _) fun j _ source => ?_
    exact (ih _ source).trans (swapIfInBounds_perm items (n + 1) j)

theorem shuffle_perm (items : List α) : Always (shuffle items) fun shuffled => shuffled.Perm items :=
  Always.bind (shuffleFrom_perm _ _) fun _ h => .pure h

def Source.ofBlock (words : ChaCha.State) (later : Nat → UInt32) : Source :=
  ⟨fun n => if h : n < 16 then words.get ⟨n, h⟩ else later n, 0⟩

theorem Source.ofSeed_eq {seed : UInt64} {words : ChaCha.State}
    (first : ChaCha.block (ChaCha.keyOfSeed seed) 0 = words) :
    Source.ofSeed seed = .ofBlock words (ChaCha.stream seed) := by
  subst first
  refine congrArg (Source.mk · 0) (funext fun n => ?_)
  split
  · rename_i inside
    have block : n / 16 = 0 := Nat.div_eq_of_lt inside
    have place : n % 16 = n := Nat.mod_eq_of_lt inside
    simp only [ChaCha.stream, block, place]
    rfl
  · rfl

end TaintScan.Random
