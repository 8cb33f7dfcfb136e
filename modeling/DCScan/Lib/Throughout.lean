import Mathlib.Data.List.Forall2

/-!
What holds at every step of a run, and lists related element by element.
-/

namespace DCScan.Lib

section run
variable {σ α : Type} {step : σ → α → Option σ} {base p q : σ → α → Prop}
variable {s : σ} {as : List α}

/-- The condition holds wherever the run takes a step. -/
def Throughout (step : σ → α → Option σ) (cond : σ → α → Prop) : σ → List α → Prop
  | _, [] => True
  | s, a :: as => cond s a ∧ ∀ t, step s a = some t → Throughout step cond t as

/-- What holds of every action holds throughout. -/
theorem throughout_of_forall {cond : α → Prop} (all : ∀ a ∈ as, cond a) :
    Throughout step (fun _ a => cond a) s as := by
  induction as generalizing s with
  | nil => trivial
  | cons a as ih =>
    rw [List.forall_mem_cons] at all
    exact ⟨all.1, fun t _ => ih all.2⟩

/-- **Two conditions are the same of a run** when they are the same of each of its steps. -/
theorem throughout_iff (inv : σ → Prop) (start : inv s) (given : Throughout step base s as)
    (same : ∀ s a, inv s → base s a → (p s a ↔ q s a))
    (keep : ∀ s a t, inv s → base s a → p s a → step s a = some t → inv t) :
    Throughout step p s as ↔ Throughout step q s as := by
  induction as generalizing s with
  | nil => exact Iff.rfl
  | cons a as ih =>
    obtain ⟨here, later⟩ := given
    have alike := same s a start here
    constructor
    · rintro ⟨holds, rest⟩
      refine ⟨alike.mp holds, fun t ran => ?_⟩
      exact (ih (keep s a t start here holds ran) (later t ran)).mp (rest t ran)
    · rintro ⟨holds, rest⟩
      have holds := alike.mpr holds
      refine ⟨holds, fun t ran => ?_⟩
      exact (ih (keep s a t start here holds ran) (later t ran)).mpr (rest t ran)

end run

section related
variable {α β : Type} {R : α → β → Prop} {as : List α} {bs : List β} {i : Nat} {a a' : α} {b : β}

theorem forall₂_getElem? (related : List.Forall₂ R as bs) (here : as[i]? = some a) :
    ∃ b, bs[i]? = some b ∧ R a b := by
  induction related generalizing i with
  | nil => cases here
  | cons first rest ih =>
    cases i with
    | zero =>
      cases here
      exact ⟨_, rfl, first⟩
    | succ i => exact ih here

/-- Related lists have the same places. -/
theorem forall₂_getElem?_none (related : List.Forall₂ R as bs) (beyond : as[i]? = none) :
    bs[i]? = none := by
  rw [List.getElem?_eq_none_iff] at beyond ⊢
  exact related.length_eq ▸ beyond

theorem forall₂_set (related : List.Forall₂ R as bs) {b' : β} (new : R a' b') :
    List.Forall₂ R (as.set i a') (bs.set i b') := by
  induction related generalizing i with
  | nil => exact .nil
  | cons first rest ih =>
    cases i with
    | zero => exact .cons new rest
    | succ i => exact .cons first ih

/-- A replacement that is related to what its place is related to. -/
theorem forall₂_set_left (related : List.Forall₂ R as bs) (there : bs[i]? = some b) (new : R a' b) :
    List.Forall₂ R (as.set i a') bs := by
  obtain ⟨inside, same⟩ := List.getElem?_eq_some_iff.mp there
  have kept := forall₂_set (i := i) related new
  rwa [← same, List.set_getElem_self] at kept

theorem forall₂_concat (related : List.Forall₂ R as bs) (new : R a b) :
    List.Forall₂ R (as ++ [a]) (bs ++ [b]) := List.rel_append related (.cons new .nil)

end related

end DCScan.Lib
