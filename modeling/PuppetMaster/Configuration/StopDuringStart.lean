/-
  PuppetMaster.Configuration.StopDuringStart — a stopped application stays stopped, unless
  the `Stop` fell into a `Start`.

  `Start` reads the phase once and writes it at the end. A `Stop` in between finds the phase
  `kCreated`, writes `kStopped` and returns; `Start` then writes `kRunning` over it, with
  the scheduler running and the components started (`a_stop_during_start_is_overwritten`).

  - `stopped_application_stays_stopped`: in every run in which the last write of `Start`
    finds no `kStopped`, and `Scheduler::Stop` is not called on a thread of the scheduler
    (where it refuses), the application is stopped when both have returned.
-/

import PuppetMaster.Configuration.LifecycleTrace

namespace PuppetMaster.Configuration.Application

open PuppetMaster.Core PuppetMaster.Lib PuppetMaster.Scheduler
open PuppetMaster.Runtime (RuntimeContext ComponentState)

variable {app : Application} {s t : State} {answer : Status}

/-- Not running, no scheduler, and no component started. -/
def IsStopped (app : Application) (s : State) : Prop :=
  s.phase ≠ .running ∧ s.scheduler.isRunning = false
    ∧ ∀ name ∈ app.components, s.runtime.states name ≠ some .started

instance (app : Application) (s : State) : Decidable (IsStopped app s) := inferInstanceAs (Decidable (_ ∧ _))

/-- `Start`'s last write finds the phase it read, and the scheduler does not refuse to stop. -/
def uncontested (s : State) (move : Move) : Prop :=
  lastWriteFindsCreated s move ∧ ∀ answer, move = .stop answer → s.stop = .stoppingScheduler → answer.isOk = true

/-- The scheduler is idle from the teardown in `Stop` on. -/
def SchedulerGone (s : State) : Prop :=
  match s.stop with
  | .tearingDown _ _ _ | .closing _ _ => s.scheduler = .idle
  | .returned _ _ => ∀ status, s.start = .returned status → s.phase = .stopped → s.scheduler = .idle
  | .idle | .stoppingScheduler | .draining => True

/-- `Start` returns `Ok` in the phase `kRunning`. -/
theorem startStep_returned {status : Status} {outcomes : List Outcome} (hlife : Life app s outcomes)
    (hs : startStep app s answer = some t)
    (hret : t.start = .returned status) (hok : status.isOk = true) : t.phase = .running := by
  unfold Life at hlife
  unfold startStep at hs
  cases hstart : s.start with
  | idle =>
    simp only [hstart] at hs
    split at hs
    · rename_i hphase
      cases hs
      exact hphase
    · cases hs
      cases hret
      cases hok
    · cases hs
      cases hret
  | failing failure =>
    simp only [hstart, Option.some.injEq] at hs hlife
    subst hs
    cases hret
    obtain ⟨-, count, up, ups, downs, hafter, -⟩ := hlife
    rw [hafter.isOk] at hok
    cases hok
  | succeeding =>
    simp only [hstart, Option.some.injEq] at hs
    subst hs
    rfl
  | calling _ _ | inCallback _ _ | schedulerStarting | tearingDown _ _ | returned _ =>
    simp only [hstart] at hs
    repeat' split at hs
    all_goals cases hs
    all_goals cases hret

theorem Life.failed {status : Status} {outcomes : List Outcome} (hlife : Life app s outcomes)
    (hstart : s.start = .returned status)
    (hfail : status.isOk = false) : Idle s ∧ ∀ name ∈ app.components, NotStarted s.runtime name := by
  unfold Life at hlife
  rw [hstart] at hlife
  dsimp only at hlife
  rw [if_neg (by simp [hfail])] at hlife
  obtain ⟨hidle, -, ⟨-, -, -, -, hnone⟩ | ⟨count, up, ups, downs, -, -, -, hnone⟩⟩ := hlife
  · exact ⟨hidle, hnone⟩
  · exact ⟨hidle, hnone⟩

theorem startStep_scheduler {outcomes : List Outcome} (hlife : Life app s outcomes) (hs : startStep app s answer = some t) :
    SchedulerGone t := by
  have hbusy : AtRest s.stop := by
    by_contra hbusy
    obtain ⟨-, status, hstart⟩ := hlife.stopLife_of_busy hbusy
    unfold startStep at hs
    rw [hstart] at hs
    cases hs
  unfold SchedulerGone
  rw [startStep_stop hs]
  rcases hbusy with hstop | hstop
  · rw [hstop]
    trivial
  · rw [hstop]
    intro status hret hphase
    cases hok : status.isOk with
    | true =>
      have hrunning := startStep_returned hlife hs hret hok
      rw [hphase] at hrunning
      cases hrunning
    | false => exact ((life_start hlife hs).failed hret hok).1.1

theorem stopStep_scheduler {outcomes : List Outcome} (hlife : Life app s outcomes) (hgone : SchedulerGone s)
    (haccepted : s.stop = .stoppingScheduler → answer.isOk = true) (hs : stopStep app s answer = some t) :
    SchedulerGone t := by
  unfold SchedulerGone at hgone
  unfold stopStep at hs
  cases hstop : s.stop with
  | idle | returned result failures =>
    simp only [hstop, Option.some.injEq] at hs hgone
    subst hs
    by_cases hphase : s.phase = .running
    · rw [stopEnters_running hphase]
      trivial
    · rw [stopEnters_notRunning hphase]
      intro status hstart _
      cases hok : status.isOk with
      | false => exact (hlife.failed hstart hok).1.1
      | true =>
        have hstopLife := hlife.stopLife hstart hok
        unfold StopLife at hstopLife
        rw [hstop] at hstopLife
        first
          | exact absurd hstopLife.1 hphase
          | exact hstopLife.2.elim (fun h => absurd h.1 hphase) fun h => hgone status hstart h.1
  | stoppingScheduler =>
    obtain ⟨hstopLife, -⟩ := hlife.stopLife_of_busy (by rw [hstop]; rintro (h | h) <;> cases h)
    unfold StopLife at hstopLife
    rw [hstop] at hstopLife
    simp only [hstop, haccepted hstop, if_true, hstopLife.2.1, Option.some.injEq] at hs
    subst hs
    trivial
  | draining =>
    simp only [hstop] at hs
    split at hs
    · cases hs
      rfl
    · cases hs
  | tearingDown first failures tear =>
    simp only [hstop] at hs hgone
    repeat' split at hs
    all_goals cases hs
    all_goals exact hgone
  | closing first failures =>
    simp only [hstop] at hs hgone
    split at hs
    all_goals cases hs
    all_goals exact fun _ _ _ => hgone

theorem schedulerGone_of_reach (h : Reach (step app) uncontested (· = initial app) s) : SchedulerGone s := by
  refine h.invariant_reach ?_ ?_
  · rintro s rfl
    trivial
  · intro s move t hreach hgone hok hs
    obtain ⟨outcomes, hlife⟩ := life_of_reach hreach
    rcases step_worker hs with ⟨answer, rfl⟩ | ⟨answer, rfl⟩ | ⟨hphase, hstart, hstop, hsched⟩
    · exact startStep_scheduler hlife hs
    · exact stopStep_scheduler hlife hgone (hok.2 answer rfl) hs
    · unfold SchedulerGone at hgone ⊢
      rwa [hphase, hstart, hstop, hsched]

theorem stopped_application_stays_stopped (h : Reach (step app) uncontested (· = initial app) s)
    {status result : Status} {failures : List Status} (hstart : s.start = .returned status)
    (hstop : s.stop = .returned result failures) : IsStopped app s := by
  obtain ⟨outcomes, hlife⟩ := life_of_reach h
  have hphase : s.phase = .stopped :=
    stopped_of_stop (h.mono fun _ _ hok => hok.1) (by rw [hstop]; nofun)
  cases hok : status.isOk with
  | false =>
    obtain ⟨hidle, hnone⟩ := hlife.failed hstart hok
    exact ⟨hidle.2.1, by rw [hidle.1]; rfl, hnone⟩
  | true =>
    have hgone := schedulerGone_of_reach h
    unfold SchedulerGone at hgone
    rw [hstop] at hgone
    have hstopLife := hlife.stopLife hstart hok
    unfold StopLife at hstopLife
    rw [hstop] at hstopLife
    obtain ⟨-, ⟨hrunning, -⟩ | ⟨-, risen, answer, downs, closed, -, -, -, hnone⟩⟩ := hstopLife
    · rw [hphase] at hrunning
      cases hrunning
    · exact ⟨by rw [hphase]; decide, by rw [hgone status hstart hphase]; rfl, hnone⟩

def uncontestedCheck (s : State) : Move → Bool
  | .start _ => decide (s.start = .succeeding → s.phase = .created)
  | .stop answer => decide (s.stop = .stoppingScheduler → answer.isOk = true)
  | _ => true

theorem uncontestedCheck_sound (s : State) (move : Move) (h : uncontestedCheck s move = true) : uncontested s move := by
  refine ⟨?_, ?_⟩
  · rintro answer rfl
    exact of_decide_eq_true h
  · rintro answer rfl
    exact of_decide_eq_true h

/-- `Stop` falls into a `Start` whose third callback fails. -/
def failedStart : List Move :=
  List.replicate 6 (Move.start .ok) ++ [Move.stop .ok, .start failed] ++ List.replicate 5 (Move.start .ok)

theorem a_stop_during_a_failing_start_is_kept :
    ∃ s, Reach (step pair) uncontested (· = initial pair) s ∧ IsStopped pair s := by
  have hrun : ∃ s, Reach (step pair) uncontested (· = initial pair) s
      ∧ decide (s.start = .returned (componentError [115] "start" failed) ∧ s.stop = .returned .ok []) = true :=
    reach_of_check uncontestedCheck failedStart _ uncontestedCheck_sound rfl (by decide +kernel)
  obtain ⟨s, hreach, hs⟩ := hrun
  obtain ⟨hstart, hstop⟩ := of_decide_eq_true hs
  exact ⟨s, hreach, stopped_application_stays_stopped hreach hstart hstop⟩

/-- `Stop` comes right after `Start` has read the phase. -/
def overwrittenStop : List Move := [Move.start .ok, .stop .ok] ++ List.replicate 15 (Move.start .ok)

theorem a_stop_during_start_is_overwritten :
    ∃ s, Reach (step pair) anyMove (· = initial pair) s ∧ s.start = .returned .ok ∧ s.stop = .returned .ok []
      ∧ s.phase = .running ∧ s.scheduler = .running ∧ s.runtime.states [115] = some .started
      ∧ ¬ IsStopped pair s := by
  have hrun : ∃ s, Reach (step pair) anyMove (· = initial pair) s
      ∧ decide (s.start = .returned .ok ∧ s.stop = .returned .ok [] ∧ s.phase = .running ∧ s.scheduler = .running
        ∧ s.runtime.states [115] = some .started ∧ ¬ IsStopped pair s) = true :=
    reach_of_run overwrittenStop _ rfl (by decide +kernel)
  obtain ⟨s, hreach, hs⟩ := hrun
  exact ⟨s, hreach, of_decide_eq_true hs⟩

end PuppetMaster.Configuration.Application
