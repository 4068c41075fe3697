/-
  PuppetMaster.Scheduler.Wakeups — no wake-up of a worker is lost.

  Workers block in two places on `event_available`: with the predicate of the wait at the
  top of the loop, and without one after a scan that found no eligible event. `QueueEvent`
  wakes one worker, a completion and `Stop` wake all. `Served` is what carries the proof:
  while somebody blocks, the workers on their way to a scan (`WorkerPc.runnable`) are as
  many as the eligible events, and during the join somebody who blocks waits for a
  component that executes. A queued event adds one eligible event and wakes one worker
  (`Served.queue_event`); a worker that blocks has seen that nothing is eligible
  (`Served.dispatch`); after `notify_all` nobody blocks (`Served.of_awake`).

  The join: `joinWork` counts what the threads have still to do. While `Stop` joins, every
  move of a thread's own, a wake-up for no reason apart, makes it smaller
  (`ownMove_joinWork`), and until all threads are gone one of these moves is possible
  (`joining_progress`).
-/

import Mathlib.Algebra.GroupWithZero.Nat
import Mathlib.Data.List.Count
import PuppetMaster.Scheduler.Propagation

namespace PuppetMaster.Scheduler

open PuppetMaster.Core PuppetMaster.Lib

/-- On its way to a scan of the queue. A worker past the loop is not, and does not count. -/
def WorkerPc.runnable : WorkerPc → Bool
  | .spawned => true
  | .top => true
  | .waiting notified => notified
  | .stalled notified => notified
  | _ => false

/-- The pending events whose component is not executing. -/
def eligible (s : State) : List Event := s.pendingEvents.filter fun e => decide (e.component ∉ s.executingComponents)

def anyBlocked (workers : List WorkerPc) : Bool := workers.any WorkerPc.blocked

def runnableWorkers (workers : List WorkerPc) : Nat := workers.countP WorkerPc.runnable

/-! ## Wake-ups -/

theorem blocked_wake (pc : WorkerPc) : pc.wake.blocked = false := by
  cases pc <;> rfl

theorem anyBlocked_notifyAll (workers : List WorkerPc) : anyBlocked (notifyAll workers) = false := by
  simp [anyBlocked, notifyAll, blocked_wake]

theorem runnable_of_blocked_wake {pc : WorkerPc} (h : pc.blocked = true) : pc.wake.runnable = true := by
  cases pc with
  | waiting notified => rfl
  | stalled notified => rfl
  | spawned => cases h
  | top => cases h
  | executing event => cases h
  | leaving => cases h
  | exited => cases h

theorem not_runnable_of_blocked {pc : WorkerPc} (h : pc.blocked = true) : pc.runnable = false := by
  cases pc with
  | waiting notified => cases notified <;> simp_all [WorkerPc.blocked, WorkerPc.runnable]
  | stalled notified => cases notified <;> simp_all [WorkerPc.blocked, WorkerPc.runnable]
  | spawned => cases h
  | top => cases h
  | executing event => cases h
  | leaving => cases h
  | exited => cases h

theorem runnableWorkers_set {workers : List WorkerPc} {i : Nat} {old : WorkerPc} (new : WorkerPc)
    (h : workers[i]? = some old) :
    runnableWorkers (workers.set i new) + old.runnable.toNat = runnableWorkers workers + new.runnable.toNat :=
  countP_set_exchange new h

theorem anyBlocked_of_set {workers : List WorkerPc} {i : Nat} {new : WorkerPc} (hnew : new.blocked = false)
    (h : anyBlocked (workers.set i new) = true) : anyBlocked workers = true := by
  obtain ⟨pc, hmem, hpc⟩ := List.any_eq_true.mp h
  rcases List.mem_or_eq_of_mem_set hmem with hmem | rfl
  · exact List.any_eq_true.mpr ⟨pc, hmem, hpc⟩
  · rw [hnew] at hpc
    cases hpc

/-- `notify_one` wakes a worker that blocks, if there is one. -/
theorem notifyOne_wakes {workers : List WorkerPc} (pick : Nat) (h : anyBlocked workers = true) :
    ∃ i pc, workers[i]? = some pc ∧ pc.blocked = true ∧ notifyOne workers pick = workers.set i pc.wake := by
  obtain ⟨pc, hmem, hpc⟩ := List.any_eq_true.mp h
  obtain ⟨k, hk⟩ := List.mem_iff_getElem?.mp hmem
  obtain ⟨hlt, -⟩ := List.getElem?_eq_some_iff.mp hk
  have hin : k ∈ blockedWorkers workers := by
    rw [blockedWorkers, List.mem_filter]
    exact ⟨List.mem_range.mpr hlt, by simp [hk, hpc]⟩
  have hpos : 0 < (blockedWorkers workers).length := List.length_pos_of_mem hin
  obtain ⟨i, hlookup⟩ : ∃ i, (blockedWorkers workers)[pick % (blockedWorkers workers).length]? = some i :=
    ⟨_, List.getElem?_eq_getElem (Nat.mod_lt pick hpos)⟩
  have hpicked : i ∈ blockedWorkers workers := List.mem_of_getElem? hlookup
  rw [blockedWorkers, List.mem_filter, List.mem_range] at hpicked
  obtain ⟨hi, hblocked⟩ := hpicked
  have hget : workers[i]? = some workers[i] := List.getElem?_eq_getElem hi
  refine ⟨i, workers[i], hget, by simpa [hget] using hblocked, ?_⟩
  simp only [notifyOne, hlookup, wakeWorker]
  rw [List.modify_eq_take_cons_drop hi, List.set_eq_take_append_cons_drop, if_pos hi]

theorem notifyOne_none {workers : List WorkerPc} (pick : Nat) (h : anyBlocked workers = false) :
    notifyOne workers pick = workers := by
  have hnil : blockedWorkers workers = [] := by
    rw [blockedWorkers, List.filter_eq_nil_iff]
    intro i _
    cases hi : workers[i]? with
    | none => simp
    | some pc =>
      have := List.any_eq_false.mp h pc (List.mem_of_getElem? hi)
      simpa using this
  simp [notifyOne, hnil]

/-! ## The invariant -/

structure Served (s : State) : Prop where
  enough : s.stop ≠ .notifying → anyBlocked s.workers = true → (eligible s).length ≤ runnableWorkers s.workers
  waitsFor : s.stop = .joining → anyBlocked s.workers = true → s.executingComponents ≠ []

variable {options : SchedulerOptions} {s t : State}

theorem Served.of_awake (h : anyBlocked t.workers = false) : Served t := by
  constructor
  · intro _ hb
    rw [h] at hb
    cases hb
  · intro _ hb
    rw [h] at hb
    cases hb

theorem eligible_eq (hpending : t.pendingEvents = s.pendingEvents)
    (hexecuting : t.executingComponents = s.executingComponents) : eligible t = eligible s := by
  rw [eligible, eligible, hpending, hexecuting]

theorem Served.frame (h : Served s) (hpending : t.pendingEvents = s.pendingEvents)
    (hexecuting : t.executingComponents = s.executingComponents) (hworkers : t.workers = s.workers)
    (hstop : t.stop = s.stop) : Served t := by
  constructor
  · rw [hstop, hworkers, eligible_eq hpending hexecuting]
    exact h.enough
  · rw [hstop, hworkers, hexecuting]
    exact h.waitsFor

/-- A worker moves on without blocking: it was blocked before, or is as runnable as it was. -/
theorem Served.set_worker (h : Served s) {i : Nat} {old new : WorkerPc} (hi : s.workers[i]? = some old)
    (hnew : new.blocked = false) (hrun : old.runnable = true → new.runnable = true) : Served (setWorker s i new) := by
  constructor
  · intro hstop hb
    have henough := h.enough hstop (anyBlocked_of_set hnew hb)
    have hcount := runnableWorkers_set new hi
    have hle : old.runnable.toNat ≤ new.runnable.toNat := by
      cases ho : old.runnable with
      | false => exact Nat.zero_le _
      | true => exact Nat.le_of_eq (by rw [hrun ho])
    show (eligible s).length ≤ runnableWorkers (s.workers.set i new)
    omega
  · intro hstop hb
    exact h.waitsFor hstop (anyBlocked_of_set hnew hb)

theorem eligible_queued (s : State) (events : List Event) (e : Event) :
    (eligible { s with pendingEvents := events ++ [e] }).length
      ≤ (eligible { s with pendingEvents := events }).length + 1 := by
  simp only [eligible, List.filter_append, List.length_append]
  have : ([e].filter fun e => decide (e.component ∉ s.executingComponents)).length ≤ 1 := List.length_filter_le _ _
  omega

/-- One more event to run, and one more worker on its way, unless nobody blocks. -/
theorem Served.queue_event (h : Served s) (request : Request) (choice : Choice) :
    Served (queueEvent s request choice) := by
  unfold queueEvent
  split
  · exact h.frame rfl rfl rfl rfl
  · by_cases hb : anyBlocked s.workers = true
    · obtain ⟨i, pc, hi, hpc, heq⟩ := notifyOne_wakes choice.pick hb
      dsimp only
      rw [heq]
      constructor
      · intro hstop _
        have henough := h.enough hstop hb
        have hqueued := eligible_queued s s.pendingEvents ⟨request.component, request.deadline, request.priority,
          dueTime request.deadline (s.clock + choice.elapsed), s.clock + choice.elapsed, s.nextEvent⟩
        have hcount := runnableWorkers_set pc.wake hi
        rw [runnable_of_blocked_wake hpc, not_runnable_of_blocked hpc, Bool.toNat_true, Bool.toNat_false] at hcount
        refine Nat.le_trans hqueued ?_
        show (eligible s).length + 1 ≤ runnableWorkers (s.workers.set i pc.wake)
        omega
      · intro hstop _
        exact h.waitsFor hstop hb
    · have hawake : anyBlocked s.workers = false := by simpa using hb
      apply Served.of_awake
      show anyBlocked (notifyOne s.workers choice.pick) = false
      rw [notifyOne_none _ hawake]
      exact hawake

theorem Served.enqueue (h : Served s) (request : Request) (choice : Choice) :
    Served (enqueue s request choice).1 := by
  unfold Scheduler.enqueue
  split
  · exact h.queue_event request choice
  · exact h

theorem Served.invoke (h : Served s) (callback : Callback) (choice : Choice) : Served (invoke s callback choice) := by
  apply invoke_induct callback choice h
  · intro components effects faults _
    exact h.frame rfl rfl rfl rfl
  · intro components effects faults request _
    apply Served.queue_event
    exact h.frame rfl rfl rfl rfl

/-- A selected event is eligible no more, and neither is another of its component. -/
theorem eligible_taken {index : Nat} {e : Event} (hat : s.pendingEvents[index]? = some e)
    (hnew : e.component ∉ s.executingComponents) :
    ((s.pendingEvents.eraseIdx index).filter fun d => decide (d.component ∉ e.component :: s.executingComponents)).length
      + 1 ≤ (eligible s).length := by
  have hperm := (perm_cons_eraseIdx hat).filter fun d => decide (d.component ∉ s.executingComponents)
  have hlen := hperm.length_eq
  rw [List.filter_cons_of_pos (by simpa using hnew), List.length_cons] at hlen
  have hsub : ((s.pendingEvents.eraseIdx index).filter fun d =>
      decide (d.component ∉ e.component :: s.executingComponents)).length
      ≤ ((s.pendingEvents.eraseIdx index).filter fun d => decide (d.component ∉ s.executingComponents)).length := by
    refine (List.monotone_filter_right _ ?_).length_le
    intro d hd
    simp only [List.mem_cons, not_or, decide_eq_true_eq] at hd ⊢
    exact hd.2
  show _ ≤ ((s.pendingEvents).filter _).length
  omega

/-- A worker that blocks leaves nothing eligible; one that takes an event leaves one less. -/
theorem Served.dispatch (h : Served s) (hlife : Life options s) {i : Nat} {pc : WorkerPc} (elapsed : Nat)
    (hi : s.workers[i]? = some pc) (hpc : pc = .top ∨ pc = .waiting true) :
    Served (dispatch options s i elapsed) := by
  have hrunnable : pc.runnable = true := by
    rcases hpc with rfl | rfl
    · rfl
    · rfl
  unfold Scheduler.dispatch
  split
  · rename_i hempty
    simp only [Bool.and_eq_true, Bool.not_eq_true', List.isEmpty_iff] at hempty
    constructor
    · intro _ _
      show ((s.pendingEvents).filter _).length ≤ _
      rw [hempty.2]
      exact Nat.zero_le _
    · intro hstop _
      have : s.stopping = true := hlife.stopping.mpr (by rw [show s.stop = .joining from hstop]; decide)
      rw [hempty.1] at this
      cases this
  · rename_i hwork
    split
    · rename_i hdone
      simp only [Bool.and_eq_true, List.isEmpty_iff] at hdone
      constructor
      · intro _ _
        show ((s.pendingEvents).filter _).length ≤ _
        rw [hdone.2]
        exact Nat.zero_le _
      · intro hstop hb
        exact h.waitsFor hstop (anyBlocked_of_set rfl hb)
    · rename_i hleft
      have hpending : s.pendingEvents ≠ [] := by
        intro hnil
        cases hs : s.stopping with
        | false => simp [hs, hnil] at hwork
        | true => simp [hs, hnil] at hleft
      dsimp only
      split
      · rename_i hnone
        have hall := selectEvent_none hnone
        constructor
        · intro _ _
          have hnil : eligible s = [] := by
            rw [eligible, List.filter_eq_nil_iff]
            intro e he
            simpa using hall e he
          show (eligible s).length ≤ _
          rw [hnil]
          exact Nat.zero_le _
        · intro _ _ hexecuting
          obtain ⟨e, he⟩ := List.exists_mem_of_ne_nil _ hpending
          have := hall e he
          rw [show s.executingComponents = [] from hexecuting] at this
          cases this
      · rename_i index event hsel
        obtain ⟨hat, hnew⟩ := selectEvent_some hsel
        constructor
        · intro hstop hb
          have henough := h.enough hstop (anyBlocked_of_set rfl hb)
          have hcount := runnableWorkers_set (.executing event) hi
          rw [hrunnable, Bool.toNat_true] at hcount
          have hzero : (WorkerPc.executing event).runnable.toNat = 0 := rfl
          refine Nat.le_of_succ_le_succ (Nat.le_trans (eligible_taken hat hnew) ?_)
          show (eligible s).length ≤ runnableWorkers (s.workers.set i (.executing event)) + 1
          omega
        · intro _ _ hnil
          cases hnil

theorem propagate_awake (h : anyBlocked s.workers = false) (dependents : List TaskDependent) (choices : List Choice) :
    anyBlocked (propagate s dependents choices).workers = false := by
  refine propagate_induct (P := fun t => anyBlocked t.workers = false) ?_ (fun _ _ _ _ h => h) (fun _ h => h) h
    dependents choices
  intro u request choice hu
  unfold queueEvent
  split
  · exact hu
  · show anyBlocked (notifyOne u.workers choice.pick) = false
    rw [notifyOne_none _ hu]
    exact hu

theorem complete_awake (s : State) (i : Nat) (event : Event) (status : Status) (choices : List Choice) :
    anyBlocked (complete s i event status choices).workers = false := by
  have hfinish : anyBlocked (finish s i event status).workers = false := anyBlocked_notifyAll _
  unfold complete
  split
  · exact propagate_awake hfinish _ _
  · exact hfinish

theorem step_served {move : Move} (hi : Inv options s) (h : Served s) (hs : step options s move = some t) :
    Served t := by
  cases transition_of_step hs with
  | register name triggers => exact h.frame rfl rfl rfl rfl
  | start first =>
    obtain ⟨-, -, -, -, graph, -, rfl⟩ := startFirst_ok first
    exact h.frame rfl rfl rfl rfl
  | @install op ops pc =>
    cases op with
    | spawnWorker =>
      have hb : ∀ hb : anyBlocked (s.workers ++ [.spawned]) = true, anyBlocked s.workers = true := by
        intro hb
        simpa [anyBlocked, WorkerPc.blocked] using hb
      constructor
      · intro hstop hblocked
        have henough := h.enough hstop (hb hblocked)
        show (eligible s).length ≤ runnableWorkers (s.workers ++ [.spawned])
        simp only [runnableWorkers, List.countP_append] at henough ⊢
        omega
      · exact fun hstop hblocked => h.waitsFor hstop (hb hblocked)
    | pushDataTrigger name trigger => exact h.frame rfl rfl rfl rfl
    | setDataCallback name topic => exact h.frame rfl rfl rfl rfl
    | setServiceCallback name deadline priority => exact h.frame rfl rfl rfl rfl
    | pushReader name => exact h.frame rfl rfl rfl rfl
    | spawnTimer request => exact h.frame rfl rfl rfl rfl
  | installFails pc => exact h.frame rfl rfl rfl rfl
  | finishStart pc => exact h.frame rfl rfl rfl rfl
  | stop starting stopping running =>
    constructor
    · intro hstop
      exact absurd rfl hstop
    · intro hstop
      cases hstop
  | stopFromStart pc stopping running =>
    constructor
    · intro hstop
      exact absurd rfl hstop
    · intro hstop
      cases hstop
  | stopNotify pc => exact Served.of_awake (anyBlocked_notifyAll _)
  | stopClear pc joined => exact Served.of_awake rfl
  | trigger found => exact h.frame rfl rfl rfl rfl
  | enqueueCall choice call =>
    apply Served.enqueue
    exact h.frame rfl rfl rfl rfl
  | copyCallback reader => exact h.frame rfl rfl rfl rfl
  | invokeCallback choice copy =>
    apply Served.invoke
    exact h.frame rfl rfl rfl rfl
  | timerExpires thread => exact h.frame rfl rfl rfl rfl
  | timerStops thread => exact h.frame rfl rfl rfl rfl
  | timerEnqueues choice thread =>
    apply Served.enqueue
    exact h.frame rfl rfl rfl rfl
  | workerBegins thread => exact h.set_worker thread rfl (fun _ => rfl)
  | workerDispatches elapsed thread at_ => exact h.dispatch hi.life elapsed thread at_
  | workerRetries thread => exact h.set_worker thread rfl (fun _ => rfl)
  | workerWakes thread blocked =>
    exact h.set_worker thread (blocked_wake _) (fun _ => runnable_of_blocked_wake blocked)
  | workerCompletes status choices thread => exact Served.of_awake (complete_awake s _ _ status choices)
  | workerLeaves thread => exact h.set_worker thread rfl (fun hrun => (by cases hrun))

theorem reach_served (h : Reach (step options) anyMove IsInitial s) : Served s := by
  refine h.invariant_reach ?_ ?_
  · intro s h
    obtain ⟨clock, rfl⟩ := h
    exact Served.of_awake rfl
  · intro s move t hr hi _ hs
    exact step_served (reach_inv hr) hi hs

/-! ## The join -/

/-- A bound on the moves a worker has left, in a pool of `n`, while nothing more is queued. -/
def WorkerPc.work (n : Nat) : WorkerPc → Nat
  | .exited => 0
  | .leaving => 1
  | .waiting notified => 1 + notified.toNat
  | .stalled notified => 1 + 2 * notified.toNat
  | .top => 2
  | .spawned => 3
  | .executing _ => 2 * n + 3

def Timer.work (timer : Timer) : Nat :=
  match timer.pc with
  | .exited => 0
  | .waiting => 1
  | .due => 2

def joinWork (s : State) : Nat :=
  s.pendingEvents.length * (2 * s.workers.length + 2) + (s.workers.map (WorkerPc.work s.workers.length)).sum
    + (s.timers.map Timer.work).sum

/-- The moves of the threads that `Stop` joins, except for a worker that wakes for no reason. -/
def ownMove : Move → Bool
  | .timerExpires _ => true
  | .timerStops _ => true
  | .timerEnqueues _ _ => true
  | .workerBegins _ => true
  | .workerDispatches _ _ => true
  | .workerRetries _ => true
  | .workerCompletes _ _ _ => true
  | .workerLeaves _ => true
  | _ => false

theorem joinWork_setWorker {i : Nat} {old : WorkerPc} (new : WorkerPc) (hi : s.workers[i]? = some old)
    (hless : new.work s.workers.length < old.work s.workers.length) : joinWork (setWorker s i new) < joinWork s := by
  have hsum := sum_set_exchange (w := WorkerPc.work s.workers.length) new hi
  simp only [joinWork, setWorker, List.length_set]
  omega

theorem joinWork_setTimer {j : Nat} {old : Timer} (new : Timer) (hj : s.timers[j]? = some old)
    (hless : new.work < old.work) : joinWork (setTimer s j new) < joinWork s := by
  have hsum := sum_set_exchange (w := Timer.work) new hj
  simp only [joinWork, setTimer]
  omega

theorem work_notifyAll (n : Nat) (workers : List WorkerPc) :
    ((notifyAll workers).map (WorkerPc.work n)).sum ≤ (workers.map (WorkerPc.work n)).sum + 2 * workers.length := by
  induction workers with
  | nil => exact Nat.zero_le _
  | cons pc rest ih =>
    have hpc : pc.wake.work n ≤ pc.work n + 2 := by
      cases pc with
      | waiting notified => simp only [WorkerPc.wake, WorkerPc.work, Bool.toNat_true]; omega
      | stalled notified => simp only [WorkerPc.wake, WorkerPc.work, Bool.toNat_true]; omega
      | spawned => exact Nat.le_add_right _ _
      | top => exact Nat.le_add_right _ _
      | executing event => exact Nat.le_add_right _ _
      | leaving => exact Nat.le_add_right _ _
      | exited => exact Nat.le_add_right _ _
    simp only [notifyAll, List.map_cons, List.sum_cons, List.length_cons] at ih ⊢
    omega

theorem joinWork_dispatch (hstopping : s.stopping = true) {i : Nat} {pc : WorkerPc} (elapsed : Nat)
    (hi : s.workers[i]? = some pc) (hpc : pc = .top ∨ pc = .waiting true) :
    joinWork (dispatch options s i elapsed) < joinWork s := by
  have htwo : pc.work s.workers.length = 2 := by
    rcases hpc with rfl | rfl
    · rfl
    · rfl
  unfold dispatch
  rw [hstopping]
  simp only [Bool.not_true, Bool.false_and, Bool.false_eq_true, if_false, Bool.true_and]
  split
  · exact joinWork_setWorker .leaving hi (by rw [htwo]; exact Nat.one_lt_two)
  · split
    · have := joinWork_setWorker (.stalled false) hi (by rw [htwo]; exact Nat.one_lt_two)
      exact this
    · rename_i index event hsel
      obtain ⟨hat, -⟩ := selectEvent_some hsel
      have hpending := (perm_cons_eraseIdx hat).length_eq
      have hsum := sum_set_exchange (w := WorkerPc.work s.workers.length) (.executing event) hi
      have hexecuting : (WorkerPc.executing event).work s.workers.length = 2 * s.workers.length + 3 := rfl
      simp only [joinWork, setWorker, List.length_set, hpending, List.length_cons, Nat.add_mul]
      omega

theorem joinWork_finish {i : Nat} {event : Event} (status : Status) (hi : s.workers[i]? = some (.executing event)) :
    joinWork (finish s i event status) < joinWork s := by
  have hsum := sum_set_exchange (w := WorkerPc.work s.workers.length) .top hi
  have hwoken := work_notifyAll s.workers.length (s.workers.set i .top)
  have hexecuting : (WorkerPc.executing event).work s.workers.length = 2 * s.workers.length + 3 := rfl
  have htop : WorkerPc.top.work s.workers.length = 2 := rfl
  simp only [List.length_set] at hwoken
  simp only [joinWork, finish, length_notifyAll, List.length_set]
  omega

theorem ownMove_joinWork {move : Move} (hstopping : s.stopping = true) (hown : ownMove move = true)
    (hs : step options s move = some t) : joinWork t < joinWork s := by
  have hrefused : accepting s = false := by simp [accepting, hstopping]
  cases transition_of_step hs with
  | timerExpires thread pc on =>
    rw [hrefused] at on
    cases on
  | timerStops thread pc => exact joinWork_setTimer _ thread (by simp [Timer.work, pc])
  | @timerEnqueues j timer choice thread pc =>
    have hless := joinWork_setTimer { timer with pc := .waiting } thread (by simp [Timer.work, pc])
    have hoff : accepting (setTimer s j { timer with pc := .waiting }) = false := hrefused
    rw [enqueue, hoff]
    exact hless
  | workerBegins thread => exact joinWork_setWorker _ thread (by simp [WorkerPc.work])
  | workerDispatches elapsed thread at_ => exact joinWork_dispatch hstopping elapsed thread at_
  | workerRetries thread => exact joinWork_setWorker _ thread (by simp [WorkerPc.work])
  | @workerCompletes i event status choices thread =>
    have hcomplete : complete s i event status choices = finish s i event status := by
      simp [complete, hstopping]
    rw [hcomplete]
    exact joinWork_finish status thread
  | workerLeaves thread => exact joinWork_setWorker _ thread (by simp [WorkerPc.work])
  | _ => cases hown

theorem exists_executing (h : ExecOk s.executingComponents s.activeEvents s.workers) (hne : s.executingComponents ≠ []) :
    ∃ e, WorkerPc.executing e ∈ s.workers := by
  obtain ⟨c, hc⟩ := List.exists_mem_of_ne_nil _ hne
  obtain ⟨e, he, -⟩ := List.mem_map.mp (h.held.mem_iff.mp hc)
  obtain ⟨pc, hmem, hpc⟩ := List.mem_filterMap.mp he
  cases pc with
  | executing event => exact ⟨event, hmem⟩
  | _ => cases hpc

/-- A worker that is not gone can move, or waits for one that executes. -/
theorem worker_progress (hi : Inv options s) (h : Served s) (hterm : s.terminated = false)
    (hjoining : s.stop = .joining) {pc : WorkerPc} (hmem : pc ∈ s.workers) (hpc : pc ≠ .exited) :
    ∃ move, ownMove move = true ∧ (step options s move).isSome = true := by
  have hmove : ∀ pc ∈ s.workers, pc.blocked = false → pc ≠ .exited →
      ∃ move, ownMove move = true ∧ (step options s move).isSome = true := by
    intro pc hmem hawake hpc
    obtain ⟨i, hget⟩ := List.mem_iff_getElem?.mp hmem
    cases pc with
    | spawned => exact ⟨.workerBegins i, rfl, by simp [step, hterm, stepWorker, hget]⟩
    | top => exact ⟨.workerDispatches i 0, rfl, by simp [step, hterm, stepWorker, hget]⟩
    | waiting notified =>
      cases notified with
      | false => cases hawake
      | true => exact ⟨.workerDispatches i 0, rfl, by simp [step, hterm, stepWorker, hget]⟩
    | stalled notified =>
      cases notified with
      | false => cases hawake
      | true => exact ⟨.workerRetries i, rfl, by simp [step, hterm, stepWorker, hget]⟩
    | executing event => exact ⟨.workerCompletes i .ok [], rfl, by simp [step, hterm, stepWorker, hget]⟩
    | leaving => exact ⟨.workerLeaves i, rfl, by simp [step, hterm, stepWorker, hget]⟩
    | exited => exact absurd rfl hpc
  cases hb : pc.blocked with
  | false => exact hmove pc hmem hb hpc
  | true =>
    have hany : anyBlocked s.workers = true := List.any_eq_true.mpr ⟨pc, hmem, hb⟩
    obtain ⟨e, he⟩ := exists_executing hi.exec (h.waitsFor hjoining hany)
    exact hmove (.executing e) he rfl (by simp)

theorem joining_progress (hi : Inv options s) (h : Served s) (hterm : s.terminated = false)
    (hjoining : s.stop = .joining) (hj : joined s = false) :
    ∃ move, ownMove move = true ∧ (step options s move).isSome = true := by
  have hstopping : s.stopping = true := hi.life.stopping.mpr (by simp [hjoining])
  have hrefused : accepting s = false := by simp [accepting, hstopping]
  rcases Bool.and_eq_false_iff.mp hj with hworkers | htimers
  · obtain ⟨pc, hmem, hpc⟩ := List.all_eq_false.mp hworkers
    exact worker_progress hi h hterm hjoining hmem (by simpa using hpc)
  · obtain ⟨timer, hmem, hpc⟩ := List.all_eq_false.mp htimers
    obtain ⟨j, hget⟩ := List.mem_iff_getElem?.mp hmem
    cases hat : timer.pc with
    | waiting => exact ⟨.timerStops j, rfl, by simp [step, hterm, stepTimer, hget, hat, hrefused]⟩
    | due => exact ⟨.timerEnqueues j {}, rfl, by simp [step, hterm, stepTimer, hget, hat]⟩
    | exited => simp [hat] at hpc

/-! ## Every run -/

theorem wakeups_are_not_lost (h : Reach (step options) anyMove IsInitial s) :
    (s.stop ≠ .notifying → anyBlocked s.workers = true →
      (eligible s).length ≤ runnableWorkers s.workers ∧ (runnableWorkers s.workers = 0 → eligible s = []))
      ∧ (s.stopping = true → s.stop ≠ .notifying →
        (anyBlocked s.workers = true → ∃ e, WorkerPc.executing e ∈ s.workers)
          ∧ (joined s = false → ∃ move, ownMove move = true ∧ (step options s move).isSome = true)
          ∧ ∀ move t, ownMove move = true → step options s move = some t → joinWork t < joinWork s) := by
  have hi := reach_inv h
  have hserved := reach_served h
  constructor
  · intro hstop hb
    have henough := hserved.enough hstop hb
    exact ⟨henough, fun hzero => List.length_eq_zero_iff.mp (by omega)⟩
  · intro hstopping hstop
    have hjoining : s.stop = .joining := by
      have hidle := hi.life.stopping.mp hstopping
      cases hpc : s.stop with
      | idle => exact absurd hpc hidle
      | notifying => exact absurd hpc hstop
      | joining => rfl
    refine ⟨?_, ?_, ?_⟩
    · exact fun hb => exists_executing hi.exec (hserved.waitsFor hjoining hb)
    · exact joining_progress hi hserved (reach_inRange h).running hjoining
    · exact fun move t hown hs => ownMove_joinWork hstopping hown hs

/-- One worker executes, the other blocks on a second event of the same component while `Stop` joins. -/
def stalledRun : List Move :=
  [.register [97] [{}], .start, .install, .install, .finishStart, .trigger [97], .enqueueCall 0 {}, .workerBegins 0,
    .workerDispatches 0 5, .trigger [97], .enqueueCall 0 {}, .workerBegins 1, .workerDispatches 1 0, .stop, .stopNotify,
    .workerRetries 1, .workerDispatches 1 0]

theorem a_stalled_worker_waits_for_an_execution :
    ∃ s : State, anyBlocked s.workers = true ∧ s.pendingEvents ≠ [] ∧ eligible s = []
      ∧ (∃ e, WorkerPc.executing e ∈ s.workers)
      ∧ ∃ move, ownMove move = true ∧ (step { workerCount := 2 } s move).isSome = true := by
  have hrun : ∃ s, Reach (step { workerCount := 2 }) anyMove IsInitial s
      ∧ (anyBlocked s.workers && decide (s.pendingEvents ≠ []) && decide (runnableWorkers s.workers = 0) && s.stopping
        && decide (s.stop ≠ .notifying) && !joined s) = true :=
    reach_of_run stalledRun _ ⟨0, rfl⟩ (by decide +kernel)
  obtain ⟨s, hs, hp⟩ := hrun
  simp only [Bool.and_eq_true, decide_eq_true_eq, Bool.not_eq_true'] at hp
  obtain ⟨⟨⟨⟨⟨hb, hpending⟩, hzero⟩, hstopping⟩, hstop⟩, hj⟩ := hp
  obtain ⟨hserved, hjoin⟩ := wakeups_are_not_lost hs
  obtain ⟨hexec, hmove, -⟩ := hjoin hstopping hstop
  exact ⟨s, hb, hpending, (hserved hstop hb).2 hzero, hexec hb, hmove hj⟩

end PuppetMaster.Scheduler
