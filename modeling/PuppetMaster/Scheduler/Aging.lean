/-
  PuppetMaster.Scheduler.Aging — how far aging lets an event be overtaken.

  A pending event was queued at a reading of the clock that is not in the future
  (`reach_queuedBefore`), so its wait is never negative. With aging interval `I`, the event
  that a worker takes was queued less than `(q - p + 1) * I` after every eligible event that
  is left, `q` and `p` being their priorities (`aging_bounds_overtaking`). The rounding goes
  against the waiting event: that is the `+ 1`.
-/

import Mathlib.Tactic.Ring
import PuppetMaster.Scheduler.DispatchOrder

namespace PuppetMaster.Scheduler

open PuppetMaster.Core PuppetMaster.Lib

variable {options : SchedulerOptions} {s t : State} {move : Move}

/-! ## Nothing is queued in the future -/

def QueuedBefore (s : State) : Prop := ∀ e ∈ s.pendingEvents, e.queuedAt ≤ s.clock

theorem QueuedBefore.sub (h : QueuedBefore s) (hpending : ∀ e ∈ t.pendingEvents, e ∈ s.pendingEvents)
    (hclock : s.clock ≤ t.clock) : QueuedBefore t := by
  intro e he
  exact Int.le_trans (h e (hpending e he)) hclock

theorem QueuedBefore.queue_event (h : QueuedBefore s) (request : Request) (choice : Choice) :
    QueuedBefore (queueEvent s request choice) := by
  unfold queueEvent
  split
  · exact h
  · intro e he
    show e.queuedAt ≤ s.clock + choice.elapsed
    rcases List.mem_append.mp he with he | he
    · have := h e he
      omega
    · obtain rfl := List.mem_singleton.mp he
      exact Int.le_refl _

theorem QueuedBefore.propagate (h : QueuedBefore s) (dependents : List TaskDependent) (choices : List Choice) :
    QueuedBefore (propagate s dependents choices) := by
  refine propagate_induct (P := QueuedBefore) ?_ ?_ ?_ h dependents choices
  · intro u request choice hu
    exact hu.queue_event request choice
  · intro u name index trigger hu
    exact hu
  · intro u hu
    exact hu

theorem QueuedBefore.enqueue (h : QueuedBefore s) (request : Request) (choice : Choice) :
    QueuedBefore (enqueue s request choice).1 := by
  unfold Scheduler.enqueue
  split
  · exact h.queue_event request choice
  · exact h

theorem QueuedBefore.invoke (h : QueuedBefore s) (callback : Callback) (choice : Choice) :
    QueuedBefore (invoke s callback choice) := by
  refine invoke_induct (P := QueuedBefore) callback choice h ?_ ?_
  · intro components effects faults _
    exact h
  · intro components effects faults request _
    have hnoted : QueuedBefore { s with components := components, effects := effects, faults := faults } := h
    exact hnoted.queue_event request choice

theorem QueuedBefore.dispatch (h : QueuedBefore s) (i elapsed : Nat) : QueuedBefore (dispatch options s i elapsed) := by
  unfold Scheduler.dispatch
  split
  · exact h
  · split
    · exact h
    · have hlater : s.clock ≤ s.clock + elapsed := by omega
      dsimp only
      split
      · exact h.sub (fun e he => he) hlater
      · exact h.sub (fun e he => List.mem_of_mem_eraseIdx he) hlater

theorem QueuedBefore.complete (h : QueuedBefore s) (i : Nat) (event : Event) (status : Status) (choices : List Choice) :
    QueuedBefore (complete s i event status choices) := by
  have hfinish : QueuedBefore (finish s i event status) := h
  unfold Scheduler.complete
  split
  · exact hfinish.propagate _ _
  · exact hfinish

theorem step_queuedBefore (h : QueuedBefore s) (hs : step options s move = some t) : QueuedBefore t := by
  cases transition_of_step hs with
  | start first =>
    obtain ⟨-, -, -, -, graph, -, rfl⟩ := startFirst_ok first
    exact h
  | @install op ops pc => cases op <;> exact h
  | stopClear pc joined =>
    intro e he
    cases he
  | @enqueueCall k request choice call =>
    have hcall : QueuedBefore { s with calls := s.calls.eraseIdx k } := h
    exact hcall.enqueue request choice
  | @invokeCallback k callback choice copy =>
    have hcopy : QueuedBefore { s with inFlight := s.inFlight.eraseIdx k } := h
    exact hcopy.invoke callback choice
  | @timerEnqueues j timer choice thread pc =>
    have htimer : QueuedBefore (setTimer s j { timer with pc := .waiting }) := h
    exact htimer.enqueue timer.request choice
  | workerDispatches elapsed thread at_ => exact h.dispatch _ elapsed
  | workerCompletes status choices thread => exact h.complete _ _ status choices
  | _ => exact h

theorem reach_queuedBefore {ok : State → Move → Prop} (h : Reach (step options) ok IsInitial s) : QueuedBefore s := by
  refine h.invariant ?_ fun s move t hi _ hs => step_queuedBefore hi hs
  intro s hinit
  obtain ⟨clock, rfl⟩ := hinit
  intro e he
  cases he

/-! ## Overtaking -/

/-- The floors of the two waits, one rounded against the waiting event. -/
theorem overtaken {interval p q wait wait' cap : Int} (hinterval : 0 < interval) (hcap : wait / interval ≤ cap)
    (h : p + min (wait / interval) cap ≤ q + min (wait' / interval) cap) :
    wait - wait' < (q - p + 1) * interval := by
  have hlevels : wait / interval - wait' / interval ≤ q - p := by omega
  have hwait : wait < (wait / interval + 1) * interval := Int.lt_ediv_add_one_mul_self wait hinterval
  have hwait' : wait' / interval * interval ≤ wait' := Int.ediv_mul_le wait' (by omega)
  calc wait - wait' < (wait / interval + 1) * interval - wait' / interval * interval := by omega
    _ = (wait / interval - wait' / interval + 1) * interval := by ring
    _ ≤ (q - p + 1) * interval := Int.mul_le_mul_of_nonneg_right (by omega) (by omega)

theorem aging_bounds_overtaking (h : Reach (step options) anyMove IsInitial s)
    (hinterval : 0 < options.priorityAgingInterval) {i elapsed : Nat} {taken left : Event}
    (hs : step options s (.workerDispatches i elapsed) = some t) (htaken : t.workers[i]? = some (.executing taken))
    (hleft : left ∈ t.pendingEvents) (heligible : left.component ∉ s.executingComponents)
    (hcap : (s.clock + elapsed - left.queuedAt) / options.priorityAgingInterval ≤ maxBoost) :
    taken.queuedAt < left.queuedAt + (taken.priority - left.priority + 1) * options.priorityAgingInterval := by
  cases transition_of_step hs with
  | workerDispatches elapsed thread at_ =>
    obtain ⟨hi, -⟩ := List.getElem?_eq_some_iff.mp thread
    obtain ⟨index, hfirst⟩ := (dispatch_executes_iff hi).mp htaken
    rw [(dispatch_of_first hfirst).2.1] at hleft
    have hpending : left ∈ s.pendingEvents := List.mem_of_mem_eraseIdx hleft
    have hqueued := reach_queuedBefore h left hpending
    have hqueued' := reach_queuedBefore h taken (List.mem_of_getElem? hfirst.queued)
    obtain ⟨j, hj⟩ := List.mem_iff_getElem?.mp hpending
    have hpriority := (hfirst.first j left hj heligible).priority
    rw [effectivePriority_eq hinterval (by omega), effectivePriority_eq hinterval (by omega)] at hpriority
    have := overtaken hinterval hcap hpriority
    omega

/-- A component with priority 5 overtakes one with priority 0 that has waited two intervals. -/
def overtakingRun : List Move :=
  [.register [97] [{}], .register [98] [{ priority := 5 }], .start, .install, .finishStart, .trigger [97],
    .enqueueCall 0 {}, .trigger [98], .enqueueCall 0 { elapsed := 20 }, .workerBegins 0]

theorem an_event_overtakes_within_the_bound :
    ∃ taken left : Event, taken.queuedAt = 20 ∧ left.queuedAt = 0
      ∧ taken.queuedAt < left.queuedAt + (taken.priority - left.priority + 1) * 10 := by
  have hrun : ∃ s, Reach (step { priorityAgingInterval := 10 }) anyMove IsInitial s
      ∧ (decide (s.clock = 20 ∧ s.executingComponents = [])
        && (step { priorityAgingInterval := 10 } s (.workerDispatches 0 5)).any fun t =>
          decide (t.workers[0]? = some (.executing ⟨[98], 0, 5, maxTime, 20, 1⟩)
            ∧ (⟨[97], 0, 0, maxTime, 0, 0⟩ : Event) ∈ t.pendingEvents)) = true :=
    reach_of_run overtakingRun _ ⟨0, rfl⟩ (by decide +kernel)
  obtain ⟨s, hs, hp⟩ := hrun
  obtain ⟨hstate, hany⟩ := Bool.and_eq_true_iff.mp hp
  obtain ⟨hclock, hexecuting⟩ := of_decide_eq_true hstate
  obtain ⟨t, ht, hevents⟩ := (Option.any_eq_true _ _).mp hany
  obtain ⟨htaken, hleft⟩ := of_decide_eq_true hevents
  exact ⟨_, _, rfl, rfl, aging_bounds_overtaking hs (by decide) ht htaken hleft (by rw [hexecuting]; exact List.not_mem_nil)
    (by rw [hclock]; decide)⟩

end PuppetMaster.Scheduler
