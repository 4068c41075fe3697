/-
  PuppetMaster.Lib.Run — runs of a system given by a partial step function.

  A system is a state type `σ`, a type `α` of moves and `step : σ → α → Option σ`
  (`none`: the move is not enabled in that state). `run` replays a list of moves.
  `Reach step ok init` holds of the states reached from an initial state by enabled
  moves that pass `ok` in the state they are taken from; `ok` is where an assumption
  on the environment, or the condition that keeps a defect out, enters a theorem
  (`anyMove` asks for nothing). `RunOk` says the same of one run's moves.

  - `Reach.invariant`, `Reach.invariant_reach`: a property that holds initially and is
    kept by every move holds in every reached state; the second form also hands the
    step the fact that its source was reached.
  - `Reach.mono`, `Reach.strengthen`: weaker conditions reach more states, and a condition
    that an invariant implies can be added.
  - `runOk_of_forall`, `runOk_of_check`: the conditions of a concrete run.
  - `reach_run`, `reach_checked`, `reach_of_run`, `reach_of_check`: replaying a concrete run reaches its
    last state, so a trace checked by evaluation is a reachable state.
  - `collect`, `collect_history`, `collect_invariant`: what the moves of a run contribute, a history in the state that
    keeps it, and an invariant of the state and the history.
  - `Reach.drains`: where a move of some kind always leaves less work, such moves end it.
-/

import Mathlib.Logic.Function.Basic

namespace PuppetMaster.Lib

universe u v w x

variable {σ : Type u} {α : Type v}

/-- Replay `as` from `s`; `none` as soon as a move is not enabled. -/
def run (step : σ → α → Option σ) : σ → List α → Option σ
  | s, [] => some s
  | s, a :: as => (step s a).bind fun t => run step t as

/-- The states reached by enabled moves that pass `ok` where they are taken. -/
inductive Reach (step : σ → α → Option σ) (ok : σ → α → Prop) (init : σ → Prop) : σ → Prop
  | init {s : σ} : init s → Reach step ok init s
  | step {s t : σ} (a : α) : Reach step ok init s → ok s a → step s a = some t → Reach step ok init t

def anyMove : σ → α → Prop := fun _ _ => True

/-- Every move of the run passes `ok` in the state it is taken from. -/
def RunOk (step : σ → α → Option σ) (ok : σ → α → Prop) : σ → List α → Prop
  | _, [] => True
  | s, a :: as => ok s a ∧ ∀ t, step s a = some t → RunOk step ok t as

variable {step : σ → α → Option σ} {ok : σ → α → Prop} {init : σ → Prop}

/-! ## Invariants -/

theorem Reach.invariant_reach {I : σ → Prop} (h0 : ∀ s, init s → I s)
    (hs : ∀ s a t, Reach step ok init s → I s → ok s a → step s a = some t → I t) {s : σ}
    (h : Reach step ok init s) : I s := by
  induction h with
  | init hi => exact h0 _ hi
  | step a hr hok hst ih => exact hs _ a _ hr ih hok hst

theorem Reach.invariant {I : σ → Prop} (h0 : ∀ s, init s → I s)
    (hs : ∀ s a t, I s → ok s a → step s a = some t → I t) {s : σ} (h : Reach step ok init s) : I s :=
  h.invariant_reach h0 fun s a t _ hi => hs s a t hi

/-- Fewer moves reach fewer states. -/
theorem Reach.mono {ok' : σ → α → Prop} (hok : ∀ s a, ok s a → ok' s a) {s : σ} (h : Reach step ok init s) :
    Reach step ok' init s := by
  induction h with
  | init hi => exact .init hi
  | step a _ ho hst ih => exact .step a ih (hok _ _ ho) hst

/-- A condition that an invariant gives for free need not be asked for. -/
theorem Reach.strengthen {ok' : σ → α → Prop} {I : σ → Prop} (h0 : ∀ s, init s → I s)
    (hs : ∀ s a t, I s → ok s a → step s a = some t → I t) (hok : ∀ s a, I s → ok s a → ok' s a) {s : σ}
    (h : Reach step ok init s) : Reach step ok' init s := by
  induction h with
  | init hi => exact .init hi
  | step a hr ho hst ih => exact .step a ih (hok _ a (hr.invariant h0 hs) ho) hst

/-! ## Runs -/

theorem run_cons {s t : σ} {a : α} {as : List α} (h : run step s (a :: as) = some t) :
    ∃ u, step s a = some u ∧ run step u as = some t := by
  simpa only [run, Option.bind_eq_some_iff] using h

theorem reach_run {as : List α} {s t : σ} (hr : Reach step ok init s) (hok : RunOk step ok s as)
    (h : run step s as = some t) : Reach step ok init t := by
  induction as generalizing s with
  | nil => cases h; exact hr
  | cons a as ih =>
    obtain ⟨u, hu, hrest⟩ := run_cons h
    exact ih (.step a hr hok.1 hu) (hok.2 u hu) hrest

theorem runOk_of_forall {as : List α} (h : ∀ a ∈ as, ∀ s, ok s a) (s : σ) : RunOk step ok s as := by
  induction as generalizing s with
  | nil => trivial
  | cons a as ih =>
    obtain ⟨hfirst, hrest⟩ := List.forall_mem_cons.mp h
    exact ⟨hfirst s, fun t _ => ih hrest t⟩

theorem runOk_any (as : List α) (s : σ) : RunOk step anyMove s as :=
  runOk_of_forall (fun _ _ _ => trivial) s

/-- A run from an initial state that ends where `p` holds. -/
theorem reach_of_run {s : σ} (as : List α) (p : σ → Bool) (hi : init s) (h : (run step s as).map p = some true) :
    ∃ t, Reach step anyMove init t ∧ p t = true := by
  obtain ⟨t, ht, hp⟩ := Option.map_eq_some_iff.mp h
  exact ⟨t, reach_run (.init hi) (runOk_any as s) ht, hp⟩

/-- The same with a condition that is checked at every move of the run. -/
theorem reach_checked {okb : σ → α → Bool} (hok : ∀ s a, okb s a = true → ok s a) {as : List α} {s t : σ}
    (hr : Reach step ok init s) (h : run (fun s a => if okb s a then step s a else none) s as = some t) :
    Reach step ok init t := by
  induction as generalizing s with
  | nil => cases h; exact hr
  | cons a as ih =>
    obtain ⟨u, hu, hrest⟩ := run_cons h
    by_cases hc : okb s a = true
    · rw [if_pos hc] at hu
      exact ih (.step a hr (hok s a hc) hu) hrest
    · rw [if_neg hc] at hu
      cases hu

theorem runOk_of_check {okb : σ → α → Bool} (hok : ∀ s a, okb s a = true → ok s a) {as : List α} {s : σ}
    (h : (run (fun s a => if okb s a then step s a else none) s as).isSome = true) : RunOk step ok s as := by
  induction as generalizing s with
  | nil => trivial
  | cons a as ih =>
    obtain ⟨t, ht⟩ := Option.isSome_iff_exists.mp h
    obtain ⟨u, hu, hrest⟩ := run_cons ht
    by_cases hc : okb s a = true
    · rw [if_pos hc] at hu
      refine ⟨hok s a hc, fun v hv => ?_⟩
      cases hu.symm.trans hv
      exact ih (Option.isSome_iff_exists.mpr ⟨t, hrest⟩)
    · rw [if_neg hc] at hu
      cases hu

theorem reach_of_check {s : σ} (okb : σ → α → Bool) (as : List α) (p : σ → Bool)
    (hok : ∀ s a, okb s a = true → ok s a) (hi : init s)
    (h : (run (fun s a => if okb s a then step s a else none) s as).map p = some true) :
    ∃ t, Reach step ok init t ∧ p t = true := by
  obtain ⟨t, ht, hp⟩ := Option.map_eq_some_iff.mp h
  exact ⟨t, reach_checked hok (.init hi) ht, hp⟩

theorem run_append {s : σ} (as bs : List α) : run step s (as ++ bs) = (run step s as).bind fun t => run step t bs := by
  induction as generalizing s with
  | nil => rfl
  | cons a as ih =>
    rw [List.cons_append, run, run]
    cases step s a with
    | none => rfl
    | some t => exact ih

/-! ## What the moves of a run contribute -/

/-- What each move of a run contributes, in the state it is taken from; oldest first. -/
def collect {β : Type w} (step : σ → α → Option σ) (f : σ → α → List β) : σ → List α → List β
  | _, [] => []
  | s, a :: as => f s a ++ ((step s a).map fun t => collect step f t as).getD []

/-- A history that every move extends by its own part, latest first, holds the parts of a run. -/
theorem collect_history {β : Type w} {γ : Type x} {P : α → Prop} {f : σ → α → List β} {history : σ → List γ}
    {note : β → γ}
    (hstep : ∀ s a t, Reach step ok init s → P a → step s a = some t →
      history t = ((f s a).map note).reverse ++ history s) {as : List α} {s t : σ} (hr : Reach step ok init s)
    (hok : RunOk step ok s as) (has : ∀ a ∈ as, P a) (h : run step s as = some t) :
    history t = ((collect step f s as).map note).reverse ++ history s := by
  induction as generalizing s with
  | nil => cases h; rfl
  | cons a as ih =>
    obtain ⟨u, hu, hrest⟩ := run_cons h
    have hlast := ih (.step a hr hok.1 hu) (hok.2 u hu) (fun b hb => has b (List.mem_cons_of_mem _ hb)) hrest
    rw [collect, hu, Option.map_some, Option.getD_some, hlast, hstep s a u hr (has a List.mem_cons_self) hu,
      List.map_append, List.reverse_append, List.append_assoc]

/-- A relation between the state and the history of the moves, kept by every move, holds after a run. -/
theorem collect_invariant {β : Type w} {f : σ → α → List β} {I : σ → List β → Prop}
    (hstep : ∀ s a t history, I s history → ok s a → step s a = some t → I t (history ++ f s a)) {as : List α} {s t : σ}
    {history : List β} (hi : I s history) (hok : RunOk step ok s as) (h : run step s as = some t) :
    I t (history ++ collect step f s as) := by
  induction as generalizing s history with
  | nil =>
    cases h
    rwa [collect, List.append_nil]
  | cons a as ih =>
    obtain ⟨u, hu, hrest⟩ := run_cons h
    rw [collect, hu, Option.map_some, Option.getD_some, ← List.append_assoc]
    exact ih (hstep s a u history hi hok.1 hu) (hok.2 u hu) hrest

/-! ## Progress -/

/-- If there is always a move of some kind that leaves less work, the moves of that kind lead to
a state where nothing is left to do. -/
theorem Reach.drains {quiet : σ → Prop} {finishing : α → Prop} (work : σ → Nat)
    (hmoves : ∀ s, Reach step ok init s → ¬ quiet s →
      ∃ a t, finishing a ∧ ok s a ∧ step s a = some t ∧ work t < work s) {s : σ} (h : Reach step ok init s) :
    ∃ as t, (∀ a ∈ as, finishing a) ∧ run step s as = some t ∧ Reach step ok init t ∧ quiet t := by
  induction hn : work s using Nat.strongRecOn generalizing s with
  | ind n ih =>
    subst hn
    by_cases hquiet : quiet s
    · exact ⟨[], s, fun _ hmem => (nomatch hmem), rfl, h, hquiet⟩
    · obtain ⟨a, t, hfinishing, hok, hstep, hless⟩ := hmoves s h hquiet
      obtain ⟨as, u, hall, hrun, hend⟩ := ih (work t) hless (.step a h hok hstep) rfl
      refine ⟨a :: as, u, List.forall_mem_cons.mpr ⟨hfinishing, hall⟩, ?_, hend⟩
      rw [run, hstep, Option.bind_some, hrun]

end PuppetMaster.Lib
