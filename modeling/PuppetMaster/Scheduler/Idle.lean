/-
  PuppetMaster.Scheduler.Idle — `WaitIdle`.

  `WaitIdle` returns when no event is pending and none is being executed. A completion
  counts itself out and notifies its dependents in one section of the mutex, so there is no
  state between the two: from an idle state only a `Trigger`, a timer or a callback queues
  anything (`step_quiet`), and in a run without these nothing executes any more
  (`wait_idle_covers_propagation`). In a chain the upstream's completion is not idle yet
  (`a_chain_is_idle_after_its_last_component`).
-/

import PuppetMaster.Scheduler.Bookkeeping
import PuppetMaster.Scheduler.Requests

namespace PuppetMaster.Scheduler

open PuppetMaster.Core PuppetMaster.Lib

/-! ## WaitIdle -/

def isIdle (s : State) : Bool := s.pendingEvents.isEmpty && s.activeEvents == 0

/-- What a call returns when it looks at the state with the mutex held; `none`: it goes on waiting. -/
def waitIdle (s : State) (onWorker timedOut : Bool) : Option Status :=
  if onWorker then
    some (.error .failedPrecondition (text "scheduler worker cannot wait for itself to become idle"))
  else if isIdle s then some .ok
  else if timedOut then
    some (.error .deadlineExceeded (text "timed out waiting for scheduler to become idle"))
  else none

theorem waitIdle_ok {s : State} {onWorker timedOut : Bool} (h : waitIdle s onWorker timedOut = some .ok) :
    s.pendingEvents = [] ∧ s.activeEvents = 0 := by
  have hcode : ∀ status : Status, status.code ≠ .ok → some status ≠ some Status.ok := by
    intro status hne heq
    exact hne (congrArg Status.code (Option.some.inj heq))
  unfold waitIdle at h
  split at h
  · exact absurd h (hcode _ (by decide))
  · split at h
    · rename_i hidle
      obtain ⟨hpending, hactive⟩ := Bool.and_eq_true_iff.mp hidle
      exact ⟨List.isEmpty_iff.mp hpending, by simpa using hactive⟩
    · split at h
      · exact absurd h (hcode _ (by decide))
      · cases h

/-- A trigger, a timer or a notification reaches the queue. -/
def Move.arrives : Move → Bool
  | .enqueueCall _ _ => true
  | .invokeCallback _ _ => true
  | .timerEnqueues _ _ => true
  | _ => false

/-! ## Nothing pending, nothing executing -/

structure Quiet (s : State) : Prop where
  pending : s.pendingEvents = []
  held : executingEvents s.workers = []

variable {options : SchedulerOptions} {s t : State} {move : Move}

theorem Quiet.set_worker (h : Quiet s) {i : Nat} {old : WorkerPc} (new : WorkerPc) (hi : s.workers[i]? = some old)
    (he : new.event? = old.event?) : Quiet (setWorker s i new) := by
  refine ⟨h.pending, ?_⟩
  show executingEvents (s.workers.set i new) = []
  rw [executingEvents, filterMap_set_eq hi he]
  exact h.held

/-- A worker finds nothing to take. -/
theorem Quiet.dispatch (h : Quiet s) {i : Nat} {pc : WorkerPc} (elapsed : Nat) (hi : s.workers[i]? = some pc)
    (hpc : pc.event? = none) :
    Quiet (dispatch options s i elapsed) ∧ (dispatch options s i elapsed).dispatchedEvents = s.dispatchedEvents := by
  have hempty : s.pendingEvents.isEmpty = true := List.isEmpty_iff.mpr h.pending
  unfold Scheduler.dispatch
  cases hstopping : s.stopping with
  | false =>
    rw [hempty]
    exact ⟨h.set_worker _ hi hpc.symm, rfl⟩
  | true =>
    rw [hempty]
    exact ⟨h.set_worker _ hi hpc.symm, rfl⟩

theorem Quiet.not_executing (h : Quiet s) {i : Nat} {event : Event} : s.workers[i]? ≠ some (.executing event) := by
  intro hi
  have hmem : event ∈ executingEvents s.workers := List.mem_filterMap.mpr ⟨_, List.mem_of_getElem? hi, rfl⟩
  rw [h.held] at hmem
  cases hmem

theorem Quiet.install (h : Quiet s) (op : InstallOp) (ops : List InstallOp) :
    Quiet { install s op with start := .installing ops }
      ∧ (install s op).dispatchedEvents = s.dispatchedEvents := by
  cases op with
  | spawnWorker =>
    refine ⟨⟨h.pending, ?_⟩, rfl⟩
    show executingEvents (s.workers ++ [.spawned]) = []
    rw [executingEvents, List.filterMap_append]
    exact List.append_eq_nil_iff.mpr ⟨h.held, rfl⟩
  | pushDataTrigger name trigger => exact ⟨⟨h.pending, h.held⟩, rfl⟩
  | setDataCallback name topic => exact ⟨⟨h.pending, h.held⟩, rfl⟩
  | setServiceCallback name deadline priority => exact ⟨⟨h.pending, h.held⟩, rfl⟩
  | pushReader name => exact ⟨⟨h.pending, h.held⟩, rfl⟩
  | spawnTimer request => exact ⟨⟨h.pending, h.held⟩, rfl⟩

theorem step_quiet (h : Quiet s) (hs : step options s move = some t) (hmove : move.arrives = false) :
    Quiet t ∧ t.dispatchedEvents = s.dispatchedEvents := by
  have hwoken : executingEvents (notifyAll s.workers) = [] := by
    rw [executingEvents_notifyAll]
    exact h.held
  cases transition_of_step hs with
  | register name triggers running stopping fresh => exact ⟨⟨h.pending, h.held⟩, rfl⟩
  | start first =>
    obtain ⟨-, -, -, -, graph, -, rfl⟩ := startFirst_ok first
    exact ⟨⟨h.pending, h.held⟩, rfl⟩
  | install pc => exact h.install _ _
  | installFails pc => exact ⟨⟨h.pending, h.held⟩, rfl⟩
  | finishStart pc => exact ⟨⟨h.pending, h.held⟩, rfl⟩
  | stop starting stopping running => exact ⟨⟨h.pending, h.held⟩, rfl⟩
  | stopFromStart pc stopping running => exact ⟨⟨h.pending, h.held⟩, rfl⟩
  | stopNotify pc => exact ⟨⟨h.pending, hwoken⟩, rfl⟩
  | stopClear pc joined => exact ⟨⟨rfl, rfl⟩, rfl⟩
  | trigger found => exact ⟨⟨h.pending, h.held⟩, rfl⟩
  | enqueueCall choice call => cases hmove
  | copyCallback reader => exact ⟨⟨h.pending, h.held⟩, rfl⟩
  | invokeCallback choice copy => cases hmove
  | timerExpires thread pc on => exact ⟨⟨h.pending, h.held⟩, rfl⟩
  | timerStops thread pc off => exact ⟨⟨h.pending, h.held⟩, rfl⟩
  | timerEnqueues choice thread pc => cases hmove
  | workerBegins thread => exact ⟨h.set_worker _ thread rfl, rfl⟩
  | workerDispatches elapsed thread at_ =>
    rcases at_ with rfl | rfl
    · exact h.dispatch elapsed thread rfl
    · exact h.dispatch elapsed thread rfl
  | workerRetries thread => exact ⟨h.set_worker _ thread rfl, rfl⟩
  | workerWakes thread blocked => exact ⟨h.set_worker _ thread (event?_wake _), rfl⟩
  | workerCompletes status choices thread => exact absurd thread h.not_executing
  | workerLeaves thread => exact ⟨h.set_worker _ thread rfl, rfl⟩

theorem run_quiet {moves : List Move} (h : Quiet s) (hrun : run (step options) s moves = some t)
    (hmoves : ∀ move ∈ moves, move.arrives = false) : Quiet t ∧ t.dispatchedEvents = s.dispatchedEvents := by
  induction moves generalizing s with
  | nil =>
    cases hrun
    exact ⟨h, rfl⟩
  | cons move moves ih =>
    obtain ⟨u, hu, hrest⟩ := run_cons hrun
    obtain ⟨hquiet, hsame⟩ := step_quiet h hu (hmoves move List.mem_cons_self)
    obtain ⟨hend, hcount⟩ := ih hquiet hrest fun m hm => hmoves m (List.mem_cons_of_mem _ hm)
    exact ⟨hend, hcount.trans hsame⟩

/-! ## Idleness -/

/-- An idle state holds no event anywhere. -/
theorem Inv.quiet_iff (h : Inv options s) : Quiet s ↔ s.pendingEvents = [] ∧ s.activeEvents = 0 := by
  have hcount : s.activeEvents = (executingEvents s.workers).length := by
    rw [h.exec.active, h.exec.held.length_eq, List.length_map]
  constructor
  · intro hq
    exact ⟨hq.pending, by rw [hcount, hq.held]; rfl⟩
  · intro hidle
    exact ⟨hidle.1, List.length_eq_zero_iff.mp (by rw [← hcount]; exact hidle.2)⟩

/-- Nothing runs after an `Ok` while nothing arrives; and a completion queues in its own step what it makes
ready, so no upstream that has completed still has to queue a downstream. -/
theorem wait_idle_covers_propagation (h : Reach (step options) anyMove IsInitial s) {onWorker timedOut : Bool}
    (hidle : waitIdle s onWorker timedOut = some .ok) {moves : List Move} (hrun : run (step options) s moves = some t)
    (hmoves : ∀ move ∈ moves, move.arrives = false) :
    t.pendingEvents = [] ∧ t.activeEvents = 0 ∧ (∀ event, WorkerPc.executing event ∉ t.workers)
      ∧ t.dispatchedEvents = s.dispatchedEvents
      ∧ ∀ (u v : State) (i : Nat) (status : Status) (choices : List Choice), Reach (step options) threadsStart IsInitial u →
        step options u (.workerCompletes i status choices) = some v →
          ∀ request ∈ acceptedBy u (.workerCompletes i status choices),
            ∃ event ∈ v.pendingEvents, event.component = request.component := by
  have hquiet : Quiet s := (reach_inv h).quiet_iff.mpr (waitIdle_ok hidle)
  obtain ⟨hend, hcount⟩ := run_quiet hquiet hrun hmoves
  have hreach : Reach (step options) anyMove IsInitial t := reach_run h (runOk_any moves s) hrun
  obtain ⟨hpending, hactive⟩ := (reach_inv hreach).quiet_iff.mp hend
  refine ⟨hpending, hactive, ?_, hcount, ?_⟩
  · intro event hmem
    obtain ⟨i, hi⟩ := List.mem_iff_getElem?.mp hmem
    exact hend.not_executing hi
  · intro u v i status choices hu hv request hrequest
    exact accepted_waits (reach_balanced hu) hv Move.noConfusion hrequest

/-- `b` waits for `a`: the run goes on past the completion of `a` until `b` has completed. -/
def chainRun : List Move :=
  [.register [97] [{}], .register [98] [{ kind := .taskDependency, taskDependencies := [[97]] }], .start, .install,
    .finishStart, .trigger [97], .enqueueCall 0 {}, .workerBegins 0, .workerDispatches 0 0, .workerCompletes 0 .ok []]

theorem a_chain_is_idle_after_its_last_component :
    ∃ s t u : State, Reach (step {}) anyMove IsInitial s ∧ waitIdle s false false = none ∧ waitIdle t false false = some .ok
    ∧ u.dispatchedEvents = 2
      ∧ u.pendingEvents = [] ∧ u.activeEvents = 0 ∧ (∀ event, WorkerPc.executing event ∉ u.workers)
      ∧ u.dispatchedEvents = t.dispatchedEvents := by
  have hrun : ∃ s, Reach (step {}) anyMove IsInitial s
      ∧ (decide (waitIdle s false false = none)
        && (run (step {}) s [.workerDispatches 0 0, .workerCompletes 0 .ok []]).any fun t =>
          decide (waitIdle t false false = some .ok)
            && (run (step {}) t [.workerDispatches 0 0]).any fun u => decide (u.dispatchedEvents = 2)) = true :=
    reach_of_run chainRun _ ⟨0, rfl⟩ (by decide +kernel)
  obtain ⟨s, hs, hp⟩ := hrun
  obtain ⟨hwaits, hany⟩ := Bool.and_eq_true_iff.mp hp
  obtain ⟨t, ht, hp⟩ := (Option.any_eq_true _ _).mp hany
  obtain ⟨hidle, hany⟩ := Bool.and_eq_true_iff.mp hp
  obtain ⟨u, hu, htwo⟩ := (Option.any_eq_true _ _).mp hany
  have hreach : Reach (step {}) anyMove IsInitial t := reach_run hs (runOk_any _ s) ht
  obtain ⟨hpending, hactive, hnone, hcount, -⟩ := wait_idle_covers_propagation hreach (of_decide_eq_true hidle) hu (by decide)
  exact ⟨s, t, u, hs, of_decide_eq_true hwaits, of_decide_eq_true hidle, of_decide_eq_true htwo, hpending, hactive, hnone, hcount⟩

end PuppetMaster.Scheduler
