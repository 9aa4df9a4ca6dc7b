import Mathlib.Data.Nat.Find
import TaintScan.Random.Draw

namespace TaintScan.Random

namespace Source

variable {s : Source} {width : Width} {n : Nat}

def skip (s : Source) (words : Nat) : Source := { s with used := s.used + words }

@[simp] theorem skip_zero : s.skip 0 = s := rfl

@[simp] theorem skip_skip (i j : Nat) : (s.skip i).skip j = s.skip (i + j) :=
  congrArg (Source.mk s.word) (Nat.add_assoc s.used i j)

/-- The words of a source come again after as many as a stream has before it repeats. -/
def Recurs (s : Source) : Prop := ∀ i, s.word (i + patience) = s.word i

theorem Recurs.ofSeed (seed : UInt64) (used : Nat) : (⟨ChaCha.stream seed, used⟩ : Source).Recurs := by
  intro i
  -- A stream has `2 ^ 64` blocks of sixteen words.
  have blocks : (i + patience) / 16 = i / 16 + 2 ^ 64 := by
    unfold patience
    omega
  have place : (i + patience) % 16 = i % 16 := by
    unfold patience
    omega
  have counter : UInt64.ofNat ((i + patience) / 16) = UInt64.ofNat (i / 16) := by
    apply UInt64.toNat_inj.mp
    rw [blocks, UInt64.toNat_ofNat', UInt64.toNat_ofNat', Nat.add_mod_right]
  simp only [ChaCha.stream, counter, place]

end Source

def Width.step : Width → Nat
  | narrow => 1
  | wide => 2

theorem Width.draw_rest (width : Width) (s : Source) : (width.draw s).2 = s.skip width.step := by
  cases width <;> rfl

namespace Source

variable {s : Source} {width : Width} {n : Nat}

def drawn (s : Source) (width : Width) (i : Nat) : Nat := (width.draw (s.skip (i * width.step))).1

def Accepts (s : Source) (width : Width) (n i : Nat) : Prop :=
  s.drawn width i * n % width.count ≤ acceptedZone width.bits n

/-- Where a search that goes on until a word is accepted comes to its end. -/
structure FirstAccepted (s : Source) (width : Width) (n t : Nat) : Prop where
  accepted : s.Accepts width n t
  rejected : ∀ i < t, ¬ s.Accepts width n i

theorem drawn_succ (i : Nat) : (s.skip width.step).drawn width i = s.drawn width (i + 1) := by
  unfold drawn
  rw [skip_skip, Nat.succ_mul, Nat.add_comm]

theorem FirstAccepted.tail {t : Nat} (first : s.FirstAccepted width n (t + 1)) :
    (s.skip width.step).FirstAccepted width n t := by
  have accepts (i : Nat) : (s.skip width.step).Accepts width n i ↔ s.Accepts width n (i + 1) := by
    rw [Accepts, drawn_succ, Accepts]
  exact ⟨(accepts t).mpr first.accepted,
    fun i before => mt (accepts i).mp (first.rejected (i + 1) (Nat.succ_lt_succ before))⟩

theorem exists_firstAccepted (some : ∃ i, s.Accepts width n i) : ∃ t, s.FirstAccepted width n t := by
  classical
  exact ⟨Nat.find some, Nat.find_spec some, fun _ => Nat.find_min some⟩

theorem Recurs.drawn (recurs : s.Recurs) (width : Width) (i : Nat) :
    s.drawn width (i + patience) = s.drawn width i := by
  have again : ∀ i, s.word (i + patience + patience) = s.word i := fun i =>
    (recurs (i + patience)).trans (recurs i)
  cases width with
  | narrow =>
    have place : s.used + (i + patience) * 1 = s.used + i * 1 + patience := by omega
    have same : s.word (s.used + (i + patience) * 1) = s.word (s.used + i * 1) := by
      rw [place, recurs]
    exact congrArg UInt32.toNat same
  | wide =>
    have place : s.used + (i + patience) * 2 = s.used + i * 2 + patience + patience := by omega
    have next : s.used + (i + patience) * 2 + 1 = s.used + i * 2 + 1 + patience + patience := by omega
    have low : s.word (s.used + (i + patience) * 2) = s.word (s.used + i * 2) := by
      rw [place, again]
    have high : s.word (s.used + (i + patience) * 2 + 1) = s.word (s.used + i * 2 + 1) := by
      rw [next, again]
    have both : (s.word (s.used + (i + patience) * 2)).toUInt64 |||
          ((s.word (s.used + (i + patience) * 2 + 1)).toUInt64 <<< 32) =
        (s.word (s.used + i * 2)).toUInt64 ||| ((s.word (s.used + i * 2 + 1)).toUInt64 <<< 32) := by
      rw [low, high]
    exact congrArg UInt64.toNat both

theorem FirstAccepted.lt_patience (recurs : s.Recurs) {t : Nat} (first : s.FirstAccepted width n t) :
    t < patience := by
  by_contra late
  obtain ⟨i, rfl⟩ := Nat.exists_eq_add_of_le' (Nat.not_lt.mp late)
  have positive : 0 < patience := by decide
  apply first.rejected i (Nat.lt_add_of_pos_right positive)
  rw [Accepts, ← recurs.drawn]
  exact first.accepted

end Source

variable {s : Source} {width : Width} {n t tries : Nat}

theorem scaledWord_succ (tries : Nat) : scaledWord width n (tries + 1) s =
    if s.drawn width 0 * n % width.count ≤ acceptedZone width.bits n then
      (s.drawn width 0 * n / width.count, s.skip width.step)
    else scaledWord width n tries (s.skip width.step) := by
  have opened : scaledWord width n (tries + 1) s =
      (if (width.draw s).1 * n % width.count ≤ acceptedZone width.bits n then
        (pure ((width.draw s).1 * n / width.count) : Draw Nat)
      else scaledWord width n tries) (width.draw s).2 := rfl
  have first : s.drawn width 0 = (width.draw s).1 := by rw [Source.drawn, Nat.zero_mul, Source.skip_zero]
  rw [opened, Width.draw_rest, first]
  split <;> rfl

theorem scaledWord_of_firstAccepted (first : s.FirstAccepted width n t) (enough : t < tries) :
    scaledWord width n tries s =
      (s.drawn width t * n / width.count, s.skip ((t + 1) * width.step)) := by
  induction t generalizing s tries with
  | zero =>
    obtain ⟨more, rfl⟩ := Nat.exists_eq_add_of_lt enough
    have accepted : s.drawn width 0 * n % width.count ≤ acceptedZone width.bits n := first.accepted
    rw [scaledWord_succ, if_pos accepted, Nat.zero_add, Nat.one_mul]
  | succ t ih =>
    obtain ⟨more, rfl⟩ := Nat.exists_eq_add_of_lt enough
    have rejected : ¬ s.drawn width 0 * n % width.count ≤ acceptedZone width.bits n :=
      first.rejected 0 (Nat.succ_pos t)
    have rest : t < t + 1 + more := by omega
    have words : width.step + (t + 1) * width.step = (t + 1 + 1) * width.step := by
      rw [Nat.succ_mul (t + 1), Nat.add_comm]
    rw [scaledWord_succ, if_neg rejected, ih first.tail rest, Source.drawn_succ, Source.skip_skip, words]

/-- Drawing a number is the search that never gives up: when some word of the stream is accepted,
the first that is makes the number. -/
theorem below_of_accepts {seed : UInt64} {used : Nat} (ranged : n ≠ width.count)
    (some : ∃ i, Source.Accepts ⟨ChaCha.stream seed, used⟩ width n i) :
    ∃ t, Source.FirstAccepted ⟨ChaCha.stream seed, used⟩ width n t ∧
      below width n ⟨ChaCha.stream seed, used⟩ =
        (Source.drawn ⟨ChaCha.stream seed, used⟩ width t * n / width.count,
          Source.skip ⟨ChaCha.stream seed, used⟩ ((t + 1) * width.step)) := by
  obtain ⟨t, first⟩ := Source.exists_firstAccepted some
  have enough := first.lt_patience (Source.Recurs.ofSeed seed used)
  rw [below, if_neg ranged]
  exact ⟨t, first, scaledWord_of_firstAccepted first enough⟩

end TaintScan.Random
