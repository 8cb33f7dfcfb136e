import DCScan.Lib.System

/-!
Simulation between systems of guarded steps, for runs whose steps keep to a condition, and schedules
that are put together from parts.

`System.Reachable.refines` is the rule for runs without a condition. Here the condition comes along:
what the concrete steps meet has to give what the abstract steps are to meet.
-/

namespace DCScan.Lib.System

variable {σ α τ β : Type} {sys : System σ α} {abstr : System τ β}
variable {cond : σ → α → Prop} {other : τ → β → Prop} {s t u : σ} {a : α} {as bs : List α}

/-- **Simulation.** When every concrete step that meets `cond` is one abstract step that meets `other`,
or none, an abstracted state of the concrete runs is one of the abstract runs. -/
theorem ReachableBy.simulates (known : σ → Prop) (view : σ → τ) (h : sys.ReachableBy cond s)
    (holds : ∀ s, sys.ReachableBy cond s → known s) (start : ∀ s, sys.init s → abstr.init (view s))
    (simulate : ∀ s a t, known s → cond s a → sys.step s a = some t →
      view t = view s ∨ ∃ b, other (view s) b ∧ abstr.step (view s) b = some (view t)) :
    abstr.ReachableBy other (view s) := by
  induction h with
  | init first => exact .init (start _ first)
  | step before met ran ih =>
    rcases simulate _ _ _ (holds _ before) met ran with same | ⟨b, met', ran'⟩
    · exact same ▸ ih
    · exact ih.step met' ran'

/-! ## Schedules that meet a condition -/

/-- `t` is reached from `s` by steps that meet `cond`. -/
inductive Steps (sys : System σ α) (cond : σ → α → Prop) : σ → σ → Prop where
  | refl (s : σ) : Steps sys cond s s
  | step {s t u : σ} {a : α} :
      cond s a → sys.step s a = some t → Steps sys cond t u → Steps sys cond s u

theorem Steps.one (met : cond s a) (ran : sys.step s a = some t) : sys.Steps cond s t :=
  .step met ran (.refl t)

theorem Steps.trans (first : sys.Steps cond s t) (rest : sys.Steps cond t u) : sys.Steps cond s u := by
  induction first with
  | refl => exact rest
  | step met ran _ ih => exact .step met ran (ih rest)

theorem Steps.mono {cond' : σ → α → Prop} (steps : sys.Steps cond s t)
    (weaker : ∀ s a, cond s a → cond' s a) : sys.Steps cond' s t := by
  induction steps with
  | refl => exact .refl _
  | step met ran _ ih => exact .step (weaker _ _ met) ran ih

theorem Steps.of_run (as : List α) (met : ∀ s, ∀ a ∈ as, cond s a) (ran : sys.run s as = some t) :
    sys.Steps cond s t := by
  induction as generalizing s with
  | nil =>
    cases ran
    exact .refl _
  | cons a as ih =>
    rw [run, List.foldlM_cons, Option.bind_eq_bind, Option.bind_eq_some_iff] at ran
    obtain ⟨next, stepped, rest⟩ := ran
    exact .step (met s a List.mem_cons_self) stepped
      (ih (fun s b member => met s b (List.mem_cons_of_mem _ member)) rest)

/-- What such steps reach from a reachable state is reachable. -/
theorem ReachableBy.steps (h : sys.ReachableBy cond s) (steps : sys.Steps cond s t) :
    sys.ReachableBy cond t := by
  induction steps with
  | refl => exact h
  | step met ran _ ih => exact ih (h.step met ran)

end DCScan.Lib.System
