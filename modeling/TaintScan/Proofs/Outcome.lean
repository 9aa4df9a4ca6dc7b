import Mathlib.Data.List.Forall2

namespace TaintScan.Outcome

variable {ε α β : Type}

theorem unique {x : Except ε α} {a b : α} (one : x = .ok a) (two : x = .ok b) : a = b :=
  Except.ok.inj (one.symm.trans two)

theorem bind_eq_ok {x : Except ε α} {f : α → Except ε β} {b : β} :
    (x >>= f) = .ok b ↔ ∃ a, x = .ok a ∧ f a = .ok b := by
  cases x with
  | error e => simp [bind, Except.bind]
  | ok a => simp [bind, Except.bind]

theorem map_eq_ok {x : Except ε α} {f : α → β} {b : β} :
    x.map f = .ok b ↔ ∃ a, x = .ok a ∧ f a = b := by
  cases x with
  | error e => simp [Except.map]
  | ok a => simp [Except.map]

theorem fmap_eq_ok {x : Except ε α} {f : α → β} {b : β} :
    f <$> x = .ok b ↔ ∃ a, x = .ok a ∧ f a = b := map_eq_ok

theorem forM_eq_ok {f : α → Except ε Unit} {as : List α} :
    as.forM f = .ok () ↔ ∀ a ∈ as, f a = .ok () := by
  induction as with
  | nil => simp [List.forM, pure, Except.pure]
  | cons a rest ih =>
    have unfolded : (a :: rest).forM f = f a >>= fun _ => rest.forM f := rfl
    rw [unfolded, bind_eq_ok, List.forall_mem_cons, ← ih]
    exact ⟨fun ⟨_, this, others⟩ => ⟨this, others⟩, fun ⟨this, others⟩ => ⟨⟨⟩, this, others⟩⟩

theorem exists_of_isOk {x : Except ε α} (h : x.isOk = true) : ∃ a, x = .ok a := by
  cases x with
  | error e => cases h
  | ok a => exact ⟨a, rfl⟩

theorem exists_of_any {x : Except ε α} {p : α → Bool} (h : x.toOption.any p = true) :
    ∃ a, x = .ok a ∧ p a = true := by
  cases x with
  | error e => cases h
  | ok a => exact ⟨a, rfl, h⟩

theorem forall₂_split {R : α → β → Prop} {front : List α} {a : α} {back : List α} {bs : List β}
    (h : List.Forall₂ R (front ++ a :: back) bs) :
    ∃ before b behind, bs = before ++ b :: behind ∧ List.Forall₂ R front before ∧ R a b ∧
      List.Forall₂ R back behind := by
  induction front generalizing bs with
  | nil =>
    cases h with
    | @cons _ b _ behind this back => exact ⟨[], b, behind, rfl, .nil, this, back⟩
  | cons first front ih =>
    cases h with
    | @cons _ c _ rest this inside =>
      obtain ⟨before, b, behind, rfl, others, that, back⟩ := ih inside
      exact ⟨c :: before, b, behind, rfl, .cons this others, that, back⟩

theorem forall₂_exists {R : α → β → Prop} {as : List α} {bs : List β} (h : List.Forall₂ R as bs)
    {a : α} (member : a ∈ as) : ∃ b ∈ bs, R a b := by
  obtain ⟨front, back, rfl⟩ := List.append_of_mem member
  obtain ⟨before, b, behind, rfl, -, this, -⟩ := forall₂_split h
  exact ⟨b, by simp, this⟩

def Each (f : α → Except ε β) : List α → List β → Prop := List.Forall₂ fun a b => f a = .ok b

namespace Each

variable {f : α → Except ε β} {as : List α} {bs cs : List β}

theorem nil : Each f [] [] := List.Forall₂.nil

theorem cons {a : α} {b : β} (this : f a = .ok b) (rest : Each f as bs) :
    Each f (a :: as) (b :: bs) := List.Forall₂.cons this rest

theorem append {others : List α} (front : Each f as bs) (back : Each f others cs) :
    Each f (as ++ others) (bs ++ cs) := List.rel_append front back

theorem length_eq (h : Each f as bs) : as.length = bs.length := List.Forall₂.length_eq h

theorem split {front : List α} {a : α} {back : List α} (h : Each f (front ++ a :: back) bs) :
    ∃ before b behind, bs = before ++ b :: behind ∧ Each f front before ∧ f a = .ok b ∧
      Each f back behind := forall₂_split h

theorem unique (h : Each f as bs) (other : Each f as cs) : bs = cs := by
  induction h generalizing cs with
  | nil => cases other; rfl
  | cons this _ ih =>
    cases other with
    | cons that rest => rw [Outcome.unique this that, ih rest]

theorem origin (h : Each f as bs) {b : β} (member : b ∈ bs) : ∃ a ∈ as, f a = .ok b :=
  forall₂_exists (List.Forall₂.flip (R := fun b a => f a = .ok b) h) member

end Each

end TaintScan.Outcome
