import Mathlib.Data.Option.Basic
import Mathlib.Data.List.Basic

/-!
Systems of guarded steps: what holds in every state a system can reach, in every
state it can reach by steps that keep to a condition, and what an abstract system
says about a concrete one.

`step s a` is the state after action `a`, or `none` when `a` is not enabled in `s`.
One definition then replays a schedule (`run`) and carries the proofs
(`ReachableBy`), so the guards a proof reads are the ones a replay checks.
-/

namespace DCScan.Lib

/-- A set of initial states and a guarded step. -/
structure System (σ α : Type) where
  init : σ → Prop
  step : σ → α → Option σ

namespace System

variable {σ α τ β : Type} {sys : System σ α} {abstr : System τ β}
variable {cond other : σ → α → Prop} {s t : σ} {a : α} {as bs : List α}

/-- Replays a schedule; `none` when one of its actions is not enabled in its turn. -/
def run (sys : System σ α) (s : σ) (as : List α) : Option σ :=
  as.foldlM sys.step s

/-- The states of the runs whose every step meets `cond` in the state it is taken from. -/
inductive ReachableBy (sys : System σ α) (cond : σ → α → Prop) : σ → Prop where
  | init {s : σ} : sys.init s → ReachableBy sys cond s
  | step {s t : σ} {a : α} :
      ReachableBy sys cond s → cond s a → sys.step s a = some t → ReachableBy sys cond t

/-- The states of any run. -/
def Reachable (sys : System σ α) (s : σ) : Prop := sys.ReachableBy (fun _ _ => True) s

theorem Reachable.start (h : sys.init s) : sys.Reachable s := .init h

theorem Reachable.next (h : sys.Reachable s) (ran : sys.step s a = some t) : sys.Reachable t :=
  .step h trivial ran

/-- **The invariant rule.** What holds initially, and is kept by every step that meets
the condition, holds in every state such steps reach. -/
theorem ReachableBy.invariant {inv : σ → Prop} (h : sys.ReachableBy cond s)
    (start : ∀ s, sys.init s → inv s)
    (keep : ∀ s a t, inv s → cond s a → sys.step s a = some t → inv t) : inv s := by
  induction h with
  | init first => exact start _ first
  | step _ met ran ih => exact keep _ _ _ ih met ran

/-- The invariant rule over what is already known of these runs. -/
theorem ReachableBy.invariant_from {known inv : σ → Prop} (h : sys.ReachableBy cond s)
    (holds : ∀ s, sys.ReachableBy cond s → known s) (start : ∀ s, sys.init s → inv s)
    (keep : ∀ s a t, known s → inv s → cond s a → sys.step s a = some t → inv t) : inv s := by
  induction h with
  | init first => exact start _ first
  | step before met ran ih => exact keep _ _ _ (holds _ before) ih met ran

/-- The rule for runs without a condition. -/
theorem Reachable.invariant {inv : σ → Prop} (h : sys.Reachable s)
    (start : ∀ s, sys.init s → inv s)
    (keep : ∀ s a t, inv s → sys.step s a = some t → inv t) : inv s :=
  ReachableBy.invariant h start fun s a t held _ ran => keep s a t held ran

theorem ReachableBy.mono (h : sys.ReachableBy cond s)
    (weaker : ∀ s a, sys.ReachableBy cond s → cond s a → other s a) : sys.ReachableBy other s := by
  induction h with
  | init first => exact .init first
  | step before met ran ih => exact .step ih (weaker _ _ before met) ran

/-- A condition only takes runs away. -/
theorem ReachableBy.reachable (h : sys.ReachableBy cond s) : sys.Reachable s :=
  h.mono fun _ _ _ _ => trivial

theorem run_cons : sys.run s (a :: as) = (sys.step s a).bind fun t => sys.run t as := rfl

theorem run_append : sys.run s (as ++ bs) = (sys.run s as).bind fun t => sys.run t bs :=
  List.foldlM_append

/-- What every step keeps, a replay keeps. -/
theorem run_keeps (inv : σ → Prop) (keep : ∀ s a t, inv s → sys.step s a = some t → inv t)
    (held : inv s) (ran : sys.run s as = some t) : inv t := by
  induction as generalizing s with
  | nil =>
    cases ran
    exact held
  | cons a as ih =>
    rw [run_cons, Option.bind_eq_some_iff] at ran
    obtain ⟨next, stepped, rest⟩ := ran
    exact ih (keep s a next held stepped) rest

/-- A replay stays among the reachable states. -/
theorem Reachable.replay (h : sys.Reachable s) (ran : sys.run s as = some t) : sys.Reachable t :=
  run_keeps sys.Reachable (fun _ _ _ reached stepped => reached.next stepped) h ran

/-- Replays a schedule of actions that meet `cond`. -/
def runBy (sys : System σ α) (cond : σ → α → Prop) [∀ s a, Decidable (cond s a)] (s : σ)
    (as : List α) : Option σ :=
  as.foldlM (fun s a => if cond s a then sys.step s a else none) s

/-- A replay of actions that meet a condition stays among the states such steps reach. -/
theorem ReachableBy.replay [∀ s a, Decidable (other s a)] (h : sys.ReachableBy cond s)
    (stronger : ∀ s a, other s a → cond s a) (ran : sys.runBy other s as = some t) :
    sys.ReachableBy cond t := by
  induction as generalizing s with
  | nil =>
    cases ran
    exact h
  | cons a as ih =>
    rw [runBy, List.foldlM_cons, Option.bind_eq_bind, Option.bind_eq_some_iff] at ran
    obtain ⟨next, stepped, rest⟩ := ran
    split at stepped
    · rename_i met
      exact ih (h.step (stronger s a met) stepped) rest
    · cases stepped

theorem ReachableBy.exists_replay {p : σ → Prop} [DecidablePred p] [∀ s a, Decidable (other s a)]
    (h : sys.ReachableBy cond s) (stronger : ∀ s a, other s a → cond s a) (as : List α)
    (found : (sys.runBy other s as).any (fun t => decide (p t)) = true) :
    ∃ t, sys.ReachableBy cond t ∧ p t := by
  cases ran : sys.runBy other s as with
  | none => simp [ran] at found
  | some t => exact ⟨t, h.replay stronger ran, by simpa [ran] using found⟩

theorem exists_reachableBy_of_replay {p : σ → Prop} [DecidablePred p] [∀ s a, Decidable (cond s a)]
    (start : sys.init s) (as : List α)
    (found : (sys.runBy cond s as).any (fun t => decide (p t)) = true) :
    ∃ t, sys.ReachableBy cond t ∧ p t :=
  ReachableBy.exists_replay (.init start) (fun _ _ => id) as found

/-- A schedule that replays to a state with a decided property shows the property reachable. -/
theorem exists_reachable_of_replay {p : σ → Prop} [DecidablePred p] (start : sys.init s)
    (as : List α)
    (found : (sys.run s as).any (fun t => decide (p t)) = true) : ∃ t, sys.Reachable t ∧ p t := by
  cases ran : sys.run s as with
  | none => simp [ran] at found
  | some t => exact ⟨t, (Reachable.start start).replay ran, by simpa [ran] using found⟩

/-- Some schedule of allowed actions leads from `s` to the goal. -/
def Leads (sys : System σ α) (allowed : α → Prop) (s : σ) (goal : σ → Prop) : Prop :=
  ∃ as t, (∀ a ∈ as, allowed a) ∧ sys.run s as = some t ∧ goal t

section Leads

variable {allowed : α → Prop} {goal next : σ → Prop}

theorem Leads.here (there : goal s) : sys.Leads allowed s goal :=
  ⟨[], s, nofun, rfl, there⟩

theorem Leads.step (own : allowed a) (ran : sys.step s a = some t) (rest : sys.Leads allowed t goal) :
    sys.Leads allowed s goal := by
  obtain ⟨as, u, allow, ran_rest, there⟩ := rest
  refine ⟨a :: as, u, ?_, by rw [run_cons, ran]; exact ran_rest, there⟩
  simp only [List.mem_cons, forall_eq_or_imp]
  exact ⟨own, allow⟩

theorem Leads.trans (first : sys.Leads allowed s goal)
    (rest : ∀ t, goal t → sys.Leads allowed t next) : sys.Leads allowed s next := by
  obtain ⟨as, t, allow, ran, there⟩ := first
  obtain ⟨bs, u, allow_rest, ran_rest, final⟩ := rest t there
  refine ⟨as ++ bs, u, fun a member => ?_, by rw [run_append, ran]; exact ran_rest, final⟩
  exact (List.mem_append.mp member).elim (allow a) (allow_rest a)

/-- **Progress.** When every state short of the goal has an allowed step that comes closer to it and
keeps `inv`, some schedule of such steps leads to the goal. -/
theorem attains {inv : σ → Prop} (distance : σ → Nat) (held : inv s)
    (advance : ∀ s, inv s → ¬goal s →
      ∃ a t, allowed a ∧ sys.step s a = some t ∧ inv t ∧ distance t < distance s) :
    sys.Leads allowed s fun t => inv t ∧ goal t := by
  induction far : distance s using Nat.strongRecOn generalizing s with
  | ind n ih =>
    by_cases there : goal s
    · exact .here ⟨held, there⟩
    · obtain ⟨a, t, own, ran, kept, closer⟩ := advance s held there
      exact .step own ran (ih (distance t) (far ▸ closer) kept rfl)

end Leads

/-- The progress rule over the reachable states. -/
theorem Reachable.attains {inv goal : σ → Prop} (distance : σ → Nat) (h : sys.Reachable s)
    (held : inv s)
    (advance : ∀ s, sys.Reachable s → inv s → ¬goal s →
      ∃ a t, sys.step s a = some t ∧ inv t ∧ distance t < distance s) :
    ∃ as t, sys.run s as = some t ∧ inv t ∧ goal t := by
  have led : sys.Leads (fun _ => True) s fun t => (sys.Reachable t ∧ inv t) ∧ goal t :=
    System.attains distance ⟨h, held⟩ fun s held short => by
      obtain ⟨a, t, ran, kept, closer⟩ := advance s held.1 held.2 short
      exact ⟨a, t, trivial, ran, ⟨held.1.next ran, kept⟩, closer⟩
  obtain ⟨as, t, _, ran, held, there⟩ := led
  exact ⟨as, t, ran, held.2, there⟩

/-- **Refinement.** When every concrete step is some abstract steps or none at all on
the abstracted states, an abstracted reachable state is reachable in the abstract system. -/
theorem Reachable.refines {inv : σ → Prop} (view : σ → τ) (h : sys.Reachable s)
    (holds : ∀ s, sys.Reachable s → inv s)
    (start : ∀ s, sys.init s → abstr.init (view s))
    (simulate : ∀ s a t, inv s → sys.step s a = some t →
      ∃ bs, abstr.run (view s) bs = some (view t)) : abstr.Reachable (view s) := by
  induction h with
  | init first => exact .start (start _ first)
  | @step s t a reached _ ran ih =>
    obtain ⟨bs, matched⟩ := simulate s a t (holds s reached) ran
    exact ih.replay matched

end System

end DCScan.Lib
