/-
  PuppetMaster.Scheduler.Requests — every accepted request is executed, or joins one that is.

  What a move asks of the queue is read off the calls alone, before the move: `Enqueue` for a
  manual trigger or a timer, a callback of a data or service reader, the dependents of a
  component that has succeeded (`acceptedBy`). What a move finishes is the event of the worker
  that completes (`executedBy`). Over a run these are `acceptedOf` and `executedOf`.
  (1) One move: the accepted requests join the queue in their order, each with its own
  deadline and priority unless its component waits already (`joinsQueue`), a dispatch takes an
  event from the queue to a worker, and only a completion takes one from a worker (`QueueKept`,
  `step_keeps`). Each has its entry in the log (`step_logged`, `step_finished`).
  (2) A run from `Start` on: the ledger of Scheduler.Conservation is the account of these
  requests (`requests_are_conserved`).
-/

import PuppetMaster.Scheduler.Conservation
import PuppetMaster.Scheduler.Readiness

namespace PuppetMaster.Scheduler

open PuppetMaster.Core PuppetMaster.Lib

variable {options : SchedulerOptions} {s s' t : State} {move : Move}

/-! ## What a move asks of the queue -/

/-- The request of a callback that the scheduler accepts. -/
def callbackRequest (s : State) (callback : Callback) : Option Request :=
  match callback.target with
  | .data triggerIndex topicIndex =>
    (lookupData s callback.component triggerIndex topicIndex).bind fun found =>
      if found.2.2 then some ⟨callback.component, found.1.deadline, found.1.priority⟩ else none
  | .service deadline priority => some ⟨callback.component, deadline, priority⟩

/-- The requests that a success makes for its dependents: each is decided by its trigger, which is noted for the next. -/
def dependentRequests : State → List TaskDependent → List Request
  | _, [] => []
  | s, dependent :: rest =>
    match lookupTask s dependent with
    | none => []
    | some (trigger, next, queue) =>
      (if queue then [⟨dependent.component, trigger.deadline, trigger.priority⟩] else [])
        ++ dependentRequests
          { s with components := setTaskTrigger s.components dependent.component dependent.triggerIndex next } rest

/-- The requests a move makes while the scheduler accepts them, in their order. -/
def acceptedBy (s : State) : Move → List Request
  | .enqueueCall k _ => if accepting s then (s.calls[k]?).toList else []
  | .timerEnqueues j _ => if accepting s then ((s.timers[j]?).map Timer.request).toList else []
  | .invokeCallback k _ => if accepting s then ((s.inFlight[k]?).bind (callbackRequest s)).toList else []
  | .workerCompletes i status _ =>
    if status.isOk && !s.stopping then
      (((s.workers[i]?).bind WorkerPc.event?).map fun event =>
        dependentRequests s (dependentsOf s.taskDependents event.component)).getD []
    else []
  | _ => []

/-- The execution that a move ends. -/
def executedBy (s : State) : Move → List Event
  | .workerCompletes i _ _ => ((s.workers[i]?).bind WorkerPc.event?).toList
  | _ => []

def acceptedOf (options : SchedulerOptions) : State → List Move → List Request := collect (step options) acceptedBy

def executedOf (options : SchedulerOptions) : State → List Move → List Event := collect (step options) executedBy

/-! ## The queue as requests -/

/-- The request an event was queued for. -/
def Event.request (e : Event) : Request := ⟨e.component, e.deadline, e.priority⟩

/-- A request joins the one of its component that waits already, or waits behind the others. -/
def joinsQueue (waiting : List Request) (request : Request) : List Request :=
  if request.component ∈ waiting.map Request.component then waiting else waiting ++ [request]

theorem queueEvent_joins (hq : QueueOk s.pendingEvents s.queuedComponents) (request : Request) (choice : Choice) :
    (queueEvent s request choice).pendingEvents.map Event.request
      = joinsQueue (s.pendingEvents.map Event.request) request := by
  have hwaits : request.component ∈ (s.pendingEvents.map Event.request).map Request.component
      ↔ request.component ∈ s.queuedComponents := by
    rw [List.map_map]
    exact (hq.same request.component).symm
  unfold queueEvent joinsQueue
  by_cases hin : request.component ∈ s.queuedComponents
  · rw [if_pos hin, if_pos (hwaits.mpr hin)]
  · rw [if_neg hin, if_neg fun hmem => hin (hwaits.mp hmem)]
    exact List.map_append

/-! ## One move -/

/-- From `s` to `t` these requests were accepted, in this order, these executions ended, and no others. -/
structure Conserves (requests : List Request) (done : List Event) (s t : State) : Prop where
  base : t.base = s.base
  logged : requestsOf t.log = (requests.map Request.component).reverse ++ requestsOf s.log
  finished : finishedIn t.log = (done.map Event.key).reverse ++ finishedIn s.log
  queue : QueueOk s.pendingEvents s.queuedComponents → QueueOk t.pendingEvents t.queuedComponents
    ∧ t.pendingEvents.map Event.request = requests.foldl joinsQueue (s.pendingEvents.map Event.request)
  held : (done ++ executingEvents t.workers).Perm (executingEvents s.workers)

section Conserves

variable {u : State} {requests more : List Request} {done gone : List Event}

theorem Conserves.none (hbase : t.base = s.base) (hlog : t.log = s.log) (hpending : t.pendingEvents = s.pendingEvents)
    (hqueued : t.queuedComponents = s.queuedComponents) (hheld : executingEvents t.workers = executingEvents s.workers) :
    Conserves [] [] s t := by
  refine ⟨hbase, ?_, ?_, fun hq => ⟨?_, ?_⟩, ?_⟩
  · rw [hlog]
    rfl
  · rw [hlog]
    rfl
  · rw [hpending, hqueued]
    exact hq
  · rw [hpending]
    rfl
  · rw [hheld]
    exact List.Perm.refl _

theorem Conserves.append (h : Conserves requests done s t) (h' : Conserves more gone t u) :
    Conserves (requests ++ more) (done ++ gone) s u := by
  refine ⟨h'.base.trans h.base, ?_, ?_, fun hq => ?_, ?_⟩
  · rw [h'.logged, h.logged, List.map_append, List.reverse_append, List.append_assoc]
  · rw [h'.finished, h.finished, List.map_append, List.reverse_append, List.append_assoc]
  · obtain ⟨hqueued, hfirst⟩ := h.queue hq
    obtain ⟨hok, hrest⟩ := h'.queue hqueued
    refine ⟨hok, ?_⟩
    rw [hrest, hfirst, List.foldl_append]
  · rw [List.append_assoc]
    exact (h'.held.append_left done).trans h.held

theorem Conserves.before (h : Conserves [] [] s t) (h' : Conserves requests done t u) : Conserves requests done s u :=
  h.append h'

theorem queueEvent_conserves (s : State) (request : Request) (choice : Choice) :
    Conserves [request] [] s (queueEvent s request choice) := by
  have hframe := queueEvent_frame s request choice
  refine ⟨hframe.base, queueEvent_requests s request choice, ?_,
    fun hq => ⟨queueEvent_queueOk hq, queueEvent_joins hq request choice⟩, ?_⟩
  · unfold queueEvent
    split
    · rfl
    · rfl
  · rw [hframe.held]
    exact List.Perm.refl _

/-- What the dependents request is read off their triggers. -/
theorem dependentRequests_congr (h : s.components = t.components) (dependents : List TaskDependent) :
    dependentRequests s dependents = dependentRequests t dependents := by
  induction dependents generalizing s t with
  | nil => rfl
  | cons dependent rest ih =>
    have hlookup : lookupTask s dependent = lookupTask t dependent := by
      unfold lookupTask
      rw [h]
    rw [dependentRequests, dependentRequests, hlookup]
    cases lookupTask t dependent with
    | none => rfl
    | some found =>
      refine congrArg (_ ++ ·) (ih ?_)
      show setTaskTrigger s.components _ _ _ = setTaskTrigger t.components _ _ _
      rw [h]

theorem propagate_conserves (s : State) (dependents : List TaskDependent) (choices : List Choice) :
    Conserves (dependentRequests s dependents) [] s (propagate s dependents choices) := by
  induction dependents generalizing s choices with
  | nil => exact .none rfl rfl rfl rfl rfl
  | cons dependent rest ih =>
    rw [propagate, dependentRequests]
    cases lookupTask s dependent with
    | none => exact .none rfl rfl rfl rfl rfl
    | some found =>
      obtain ⟨trigger, next, queue⟩ := found
      let noted := { s with
        components := setTaskTrigger s.components dependent.component dependent.triggerIndex next }
      have hnoted : Conserves [] [] s noted := .none rfl rfl rfl rfl rfl
      cases queue with
      | true =>
        let request : Request := ⟨dependent.component, trigger.deadline, trigger.priority⟩
        have hqueued := hnoted.append (queueEvent_conserves noted request (choices.headD {}))
        have hrest := ih (queueEvent noted request (choices.headD {})) choices.tail
        have hsame := dependentRequests_congr (queueEvent_components noted request (choices.headD {})) rest
        exact hqueued.append (hsame ▸ hrest)
      | false => exact hnoted.append (ih noted choices)

theorem enqueue_conserves (s : State) (request : Request) (choice : Choice) :
    Conserves (if accepting s then [request] else []) [] s (enqueue s request choice).1 := by
  unfold enqueue
  split
  · exact queueEvent_conserves s request choice
  · exact .none rfl rfl rfl rfl rfl

theorem invoke_conserves (s : State) (callback : Callback) (choice : Choice) :
    Conserves (if accepting s then (callbackRequest s callback).toList else []) [] s (invoke s callback choice) := by
  unfold invoke callbackRequest
  cases callback.target with
  | data triggerIndex topicIndex =>
    dsimp only
    unfold onDataAvailable
    cases haccepting : accepting s with
    | false => exact .none rfl rfl rfl rfl rfl
    | true =>
      simp only [Bool.not_true, Bool.false_eq_true, if_false, if_true]
      cases lookupData s callback.component triggerIndex topicIndex with
      | none => exact .none rfl rfl rfl rfl rfl
      | some found =>
        obtain ⟨trigger, next, queue⟩ := found
        let noted := { s with
          components := setDataTrigger s.components callback.component triggerIndex next
          effects := (callback.run, s.run) :: s.effects }
        have hnoted : Conserves [] [] s noted := .none rfl rfl rfl rfl rfl
        cases queue with
        | true => exact hnoted.append (queueEvent_conserves noted _ choice)
        | false => exact hnoted
  | service deadline priority =>
    dsimp only
    split
    · let noted := { s with effects := (callback.run, s.run) :: s.effects }
      have hnoted : Conserves [] [] s noted := .none rfl rfl rfl rfl rfl
      exact hnoted.append (queueEvent_conserves noted _ choice)
    · exact .none rfl rfl rfl rfl rfl

theorem finish_conserves {i : Nat} {event : Event} (status : Status) (hi : s.workers[i]? = some (.executing event)) :
    Conserves [] [event] s (finish s i event status) := by
  refine ⟨rfl, rfl, rfl, fun hq => ⟨hq, rfl⟩, ?_⟩
  have hheld : executingEvents (finish s i event status).workers = executingEvents (s.workers.set i .top) :=
    executingEvents_notifyAll _
  rw [hheld]
  exact filterMap_set_perm (f := WorkerPc.event?) .top hi

theorem complete_conserves {i : Nat} {event : Event} (status : Status) (choices : List Choice)
    (hi : s.workers[i]? = some (.executing event)) :
    Conserves (acceptedBy s (.workerCompletes i status choices)) [event] s (complete s i event status choices) := by
  have hfinish := finish_conserves status hi
  rw [acceptedBy, hi]
  unfold complete
  split
  · have hrest := propagate_conserves (finish s i event status) (dependentsOf s.taskDependents event.component) choices
    have hsame : dependentRequests (finish s i event status) (dependentsOf s.taskDependents event.component)
        = dependentRequests s (dependentsOf s.taskDependents event.component) :=
      dependentRequests_congr (show (finish s i event status).components = s.components from rfl) _
    exact hfinish.append (hsame ▸ hrest)
  · exact hfinish

theorem setWorker_conserves {i : Nat} {old : WorkerPc} (new : WorkerPc) (hi : s.workers[i]? = some old)
    (he : new.event? = old.event?) : Conserves [] [] s (setWorker s i new) :=
  .none rfl rfl rfl rfl (filterMap_set_eq hi he)

theorem install_conserves (s : State) (op : InstallOp) (start : StartPc) :
    Conserves [] [] s { install s op with start := start } := by
  cases op with
  | spawnWorker =>
    refine .none rfl rfl rfl rfl ?_
    simp [install, executingEvents, WorkerPc.event?]
  | _ => exact .none rfl rfl rfl rfl rfl

theorem stopClear_conserves (hp : s.pendingEvents = []) (hheld : executingEvents s.workers = []) :
    Conserves [] [] s (stopClear s) := by
  refine ⟨rfl, rfl, rfl, fun _ => ⟨QueueOk.nil, ?_⟩, ?_⟩
  · rw [hp]
    rfl
  · rw [hheld]
    exact List.Perm.refl _

end Conserves

def Move.dispatches : Move → Bool
  | .workerDispatches _ _ => true
  | _ => false

/-- Any move but a dispatch and the `Start` of another run. -/
theorem step_conserves (h : Balanced options s) (hs : step options s move = some t) (hstart : move ≠ .start)
    (hmove : move.dispatches = false) : Conserves (acceptedBy s move) (executedBy s move) s t := by
  cases transition_of_step hs with
  | start first => exact absurd rfl hstart
  | install pc => exact install_conserves s _ _
  | stopNotify pc => exact .none rfl rfl rfl rfl (executingEvents_notifyAll _)
  | stopClear pc hj =>
    obtain ⟨hp, hheld⟩ := h.cleared hs
    exact stopClear_conserves hp hheld
  | @enqueueCall k request choice call =>
    have hcall : Conserves [] [] s { s with calls := s.calls.eraseIdx k } := .none rfl rfl rfl rfl rfl
    rw [acceptedBy, call]
    exact hcall.before (enqueue_conserves { s with calls := s.calls.eraseIdx k } request choice)
  | @invokeCallback k callback choice copy =>
    have hcall : Conserves [] [] s { s with inFlight := s.inFlight.eraseIdx k } := .none rfl rfl rfl rfl rfl
    rw [acceptedBy, copy]
    exact hcall.before (invoke_conserves { s with inFlight := s.inFlight.eraseIdx k } callback choice)
  | @timerEnqueues j timer choice thread =>
    have hcall : Conserves [] [] s (setTimer s j { timer with pc := .waiting }) := .none rfl rfl rfl rfl rfl
    rw [acceptedBy, thread]
    exact hcall.before (enqueue_conserves (setTimer s j { timer with pc := .waiting }) timer.request choice)
  | workerBegins thread => exact setWorker_conserves _ thread rfl
  | workerDispatches elapsed thread at_ => cases hmove
  | workerRetries thread => exact setWorker_conserves _ thread rfl
  | workerWakes thread blocked => exact setWorker_conserves _ thread (event?_wake _)
  | @workerCompletes i event status choices thread =>
    rw [executedBy, thread]
    exact complete_conserves status choices thread
  | workerLeaves thread => exact setWorker_conserves _ thread rfl
  | _ => exact .none rfl rfl rfl rfl rfl

/-- A dispatch takes an event from the queue to a worker, or leaves both as they are. -/
structure Dispatches (s t : State) : Prop where
  base : t.base = s.base
  logged : requestsOf t.log = requestsOf s.log
  finished : finishedIn t.log = finishedIn s.log
  taken : (executingEvents t.workers ++ t.pendingEvents).Perm (executingEvents s.workers ++ s.pendingEvents)

theorem dispatch_dispatches {i : Nat} {pc : WorkerPc} (elapsed : Nat) (hi : s.workers[i]? = some pc)
    (hpc : pc.event? = none) : Dispatches s (dispatch options s i elapsed) := by
  have hidle (new : WorkerPc) (hnew : new.event? = none) :
      executingEvents (s.workers.set i new) = executingEvents s.workers := filterMap_set_eq hi (hnew.trans hpc.symm)
  unfold dispatch
  split
  · exact ⟨rfl, rfl, rfl, by rw [setWorker, hidle _ rfl]⟩
  · split
    · exact ⟨rfl, rfl, rfl, by rw [setWorker, hidle _ rfl]⟩
    · dsimp only
      split
      · exact ⟨rfl, rfl, rfl, by rw [setWorker, hidle _ rfl]⟩
      · rename_i index event hsel
        refine ⟨rfl, rfl, rfl, ?_⟩
        have hset : (executingEvents (s.workers.set i (.executing event))).Perm (event :: executingEvents s.workers) := by
          have hset := filterMap_set_perm (f := WorkerPc.event?) (.executing event) hi
          rw [hpc] at hset
          exact hset
        have hpending := perm_cons_eraseIdx (selectEvent_some hsel).1
        refine (hset.append_right _).trans (List.perm_middle.symm.trans ?_)
        exact hpending.symm.append_left _

theorem step_dispatches (hs : step options s move = some t) (hmove : move.dispatches = true) : Dispatches s t := by
  cases transition_of_step hs with
  | workerDispatches elapsed thread at_ =>
    refine dispatch_dispatches elapsed thread ?_
    rcases at_ with rfl | rfl
    · rfl
    · rfl
  | _ => cases hmove

/--
The queue and the workers across a move: the accepted requests join the queue in their order, and events leave the
workers with their executions; only a dispatch takes events from the queue, to a worker.
-/
def QueueKept (s : State) (move : Move) (t : State) : Prop :=
  if move.dispatches then
    (executingEvents t.workers ++ t.pendingEvents).Perm (executingEvents s.workers ++ s.pendingEvents)
  else
    t.pendingEvents.map Event.request = (acceptedBy s move).foldl joinsQueue (s.pendingEvents.map Event.request)
      ∧ (executedBy s move ++ executingEvents t.workers).Perm (executingEvents s.workers)

theorem step_keeps (h : Balanced options s) (hs : step options s move = some t) (hstart : move ≠ .start) :
    QueueKept s move t := by
  unfold QueueKept
  cases hmove : move.dispatches with
  | true => exact (step_dispatches hs hmove).taken
  | false =>
    have hkeeps := step_conserves h hs hstart hmove
    exact ⟨(hkeeps.queue h.inv.queue).2, hkeeps.held⟩

theorem mem_joined (waiting accepted : List Request) (request : Request)
    (h : request ∈ accepted ∨ request.component ∈ waiting.map Request.component) :
    request.component ∈ (accepted.foldl joinsQueue waiting).map Request.component := by
  induction accepted generalizing waiting with
  | nil => exact h.resolve_left List.not_mem_nil
  | cons first rest ih =>
    refine ih _ ?_
    have hkeeps : ∀ c ∈ waiting.map Request.component, c ∈ (joinsQueue waiting first).map Request.component := by
      intro c hc
      unfold joinsQueue
      split
      · exact hc
      · rw [List.map_append]
        exact List.mem_append_left _ hc
    rcases h with hmem | hwaits
    · rcases List.mem_cons.mp hmem with rfl | hrest
      · right
        unfold joinsQueue
        split
        · next hin => exact hin
        · rw [List.map_append]
          exact List.mem_append_right _ List.mem_cons_self
      · exact .inl hrest
    · exact .inr (hkeeps _ hwaits)

/-- What a step accepts is in the queue behind it: nothing that is ready is still to be queued. -/
theorem accepted_waits (h : Balanced options s) (hs : step options s move = some t) (hstart : move ≠ .start)
    {request : Request} (hrequest : request ∈ acceptedBy s move) :
    ∃ event ∈ t.pendingEvents, event.component = request.component := by
  have hmove : move.dispatches = false := by
    cases move with
    | workerDispatches => cases hrequest
    | _ => rfl
  have hkept := step_keeps h hs hstart
  rw [QueueKept, hmove] at hkept
  have hwaits := mem_joined (s.pendingEvents.map Event.request) _ request (.inl hrequest)
  rw [← hkept.1, List.map_map] at hwaits
  obtain ⟨event, hevent, heq⟩ := List.mem_map.mp hwaits
  exact ⟨event, hevent, heq⟩

/-- The log across a move: one entry for each accepted request and one for each execution that ends. -/
theorem step_logged (h : Balanced options s) (hs : step options s move = some t) (hstart : move ≠ .start) :
    requestsOf t.log = ((acceptedBy s move).map Request.component).reverse ++ requestsOf s.log
      ∧ finishedIn t.log = ((executedBy s move).map Event.key).reverse ++ finishedIn s.log ∧ t.base = s.base := by
  cases hmove : move.dispatches with
  | true =>
    obtain ⟨hbase, hlogged, hfinished, -⟩ := step_dispatches hs hmove
    cases move with
    | workerDispatches i elapsed => exact ⟨hlogged, hfinished, hbase⟩
    | _ => cases hmove
  | false =>
    obtain ⟨hbase, hlogged, hfinished, -⟩ := step_conserves h hs hstart hmove
    exact ⟨hlogged, hfinished, hbase⟩

/-! ## A run -/

theorem length_requestsOf (log : List Entry) : (requestsOf log).length = (queuedIn log).length + coalescedIn log := by
  induction log with
  | nil => rfl
  | cons entry log ih =>
    unfold requestsOf queuedIn coalescedIn at *
    rw [List.countP_cons, List.filterMap_cons, List.filterMap_cons]
    cases entry <;> simp [Entry.request?, Entry.isCoalesced, Entry.queuedKey, ih] <;> omega

/-- The entry of a request, with what the log held before it. -/
theorem request_entry {log : List Entry} {n : Nat} {c : Name} (h : (requestsOf log).reverse[n]? = some c) :
    ∃ later entry earlier, log = later ++ entry :: earlier ∧ (requestsOf earlier).length = n
      ∧ entry.request? = some c := by
  induction log with
  | nil => cases h
  | cons entry log ih =>
    unfold requestsOf at h ih ⊢
    rw [List.filterMap_cons] at h
    cases hentry : entry.request? with
    | none =>
      rw [hentry] at h
      obtain ⟨later, found, earlier, rfl, hn, hc⟩ := ih h
      exact ⟨entry :: later, found, earlier, rfl, hn, hc⟩
    | some latest =>
      rw [hentry, List.reverse_cons] at h
      rcases getElem?_concat_cases h with h | ⟨rfl, rfl⟩
      · obtain ⟨later, found, earlier, rfl, hn, hc⟩ := ih h
        exact ⟨entry :: later, found, earlier, rfl, hn, hc⟩
      · exact ⟨[], entry, log, rfl, List.length_reverse.symm, hentry⟩

theorem run_base (h : Reach (step options) threadsStart IsInitial s) {moves : List Move}
    (hok : RunOk (step options) threadsStart s moves) (hmoves : ∀ move ∈ moves, move ≠ .start)
    (hrun : run (step options) s moves = some t) : t.base = s.base := by
  induction moves generalizing s with
  | nil =>
    cases hrun
    rfl
  | cons move moves ih =>
    obtain ⟨u, hu, hrest⟩ := run_cons hrun
    obtain ⟨hmove, hrestMoves⟩ := List.forall_mem_cons.mp hmoves
    have hlast := ih (.step move h hok.1 hu) (hok.2 u hu) hrestMoves hrest
    exact hlast.trans (step_logged (reach_balanced h) hu hmove).2.2

/-- What the log and the counters say of a run's requests, at any point of it. -/
theorem run_logged (h : Reach (step options) threadsStart IsInitial s) (hs : step options s .start = some s')
    {moves : List Move} (hok : RunOk (step options) threadsStart s' moves) (hmoves : ∀ move ∈ moves, move ≠ .start)
    (hrun : run (step options) s' moves = some t) :
    requestsOf t.log = ((acceptedOf options s' moves).map Request.component).reverse
      ∧ finishedIn t.log = ((executedOf options s' moves).map Event.key).reverse
      ∧ t.base = ⟨s'.dispatchedEvents, s'.coalescedEvents⟩ := by
  have hr : Reach (step options) threadsStart IsInitial s' := .step .start h (fun heq => by cases heq) hs
  obtain ⟨hlog, hbase⟩ : s'.log = [] ∧ s'.base = ⟨s'.dispatchedEvents, s'.coalescedEvents⟩ := by
    cases transition_of_step hs with
    | start first =>
      obtain ⟨-, -, -, -, graph, -, rfl⟩ := startFirst_ok first
      exact ⟨rfl, rfl⟩
  have hlogged : requestsOf t.log = ((acceptedOf options s' moves).map Request.component).reverse ++ requestsOf s'.log :=
    collect_history (fun u move v hu hmove hv => (step_logged (reach_balanced hu) hv hmove).1) hr hok hmoves hrun
  have hfinished : finishedIn t.log = ((executedOf options s' moves).map Event.key).reverse ++ finishedIn s'.log :=
    collect_history (fun u move v hu hmove hv => (step_logged (reach_balanced hu) hv hmove).2.1) hr hok hmoves hrun
  refine ⟨?_, ?_, ?_⟩
  · rw [hlogged, hlog]
    exact List.append_nil _
  · rw [hfinished, hlog]
    exact List.append_nil _
  · rw [← hbase]
    exact run_base hr hok hmoves hrun

/-- Once `Stop` clears the queue: each request is executed once, or joined an event that waited and was executed once. -/
theorem Balanced.request_served (h : Balanced options t) (hs : step options t .stopClear = some s) {n : Nat} {c : Name}
    (hn : (requestsOf t.log).reverse[n]? = some c) :
    ∃ later entry earlier id, t.log = later ++ entry :: earlier ∧ (requestsOf earlier).length = n
      ∧ (startedIn t.log).count (c, id) = 1 ∧ (finishedIn t.log).count (c, id) = 1
      ∧ (entry = .queued c id
        ∨ entry = .coalesced c (some id) ∧ .queued c id ∈ earlier ∧ .started c id ∉ earlier
          ∧ .started c id ∈ later) := by
  obtain ⟨later, entry, earlier, hlog, hlength, hentry⟩ := request_entry hn
  obtain ⟨hp, hheld⟩ := h.cleared hs
  have hledger := h.account.ledger
  rw [hp, hheld] at hledger
  have hmem (e : Entry) (he : e ∈ entry :: earlier) : e ∈ t.log := by
    rw [hlog]
    exact List.mem_append_right _ he
  cases entry with
  | queued component id =>
    cases hentry
    have hin := hmem (.queued c id) List.mem_cons_self
    obtain ⟨hstarted, hfinished⟩ := hledger.settled (mem_queuedIn.mpr hin)
    exact ⟨later, _, earlier, id, hlog, hlength, hstarted, hfinished, .inl rfl⟩
  | coalesced component into =>
    cases hentry
    obtain ⟨id, rfl, hqueued, hwaits, hstarts⟩ := hledger.coalesced_starts hlog
    have hin := hmem _ (List.mem_cons_of_mem _ hqueued)
    obtain ⟨hstarted, hfinished⟩ := hledger.settled (mem_queuedIn.mpr hin)
    exact ⟨later, _, earlier, id, hlog, hlength, hstarted, hfinished, .inr ⟨rfl, hqueued, hwaits, hstarts⟩⟩
  | started component id => cases hentry
  | finished component id => cases hentry

/--
A run from `Start` to its state `t`, with every request that was accepted on the way: the counters account for them;
each has its entry in the log, in their order, and the events queued are those finished, executing and pending, each
once; the next move keeps the queue; and when `Stop` clears it, nothing is in it and every request has been served.
-/
theorem requests_are_conserved (h : Reach (step options) threadsStart IsInitial s)
    (hs : step options s .start = some s') {moves : List Move} (hok : RunOk (step options) threadsStart s' moves)
    (hmoves : ∀ move ∈ moves, move ≠ .start) (hrun : run (step options) s' moves = some t) :
    (s'.coalescedEvents ≤ t.coalescedEvents ∧ s'.dispatchedEvents ≤ t.dispatchedEvents
      ∧ (acceptedOf options s' moves).length = (t.coalescedEvents - s'.coalescedEvents)
        + (t.dispatchedEvents - s'.dispatchedEvents) + t.activeEvents + t.pendingEvents.length)
      ∧ (requestsOf t.log = ((acceptedOf options s' moves).map Request.component).reverse
        ∧ (queuedIn t.log).Nodup
        ∧ (startedIn t.log).Perm ((executedOf options s' moves ++ executingEvents t.workers).map Event.key)
        ∧ (queuedIn t.log).Perm ((executedOf options s' moves ++ executingEvents t.workers ++ t.pendingEvents).map Event.key)
        ∧ Joined t.log)
      ∧ (∀ move u, move ≠ .start → step options t move = some u → QueueKept t move u)
      ∧ ∀ u, step options t .stopClear = some u →
        t.pendingEvents = []
          ∧ ∀ (n : Nat) (request : Request), (acceptedOf options s' moves)[n]? = some request →
            ∃ later entry earlier id, t.log = later ++ entry :: earlier ∧ (requestsOf earlier).length = n
              ∧ (startedIn t.log).count (request.component, id) = 1
              ∧ ((executedOf options s' moves).map Event.key).count (request.component, id) = 1
              ∧ (entry = .queued request.component id
                ∨ entry = .coalesced request.component (some id) ∧ .queued request.component id ∈ earlier
                  ∧ .started request.component id ∉ earlier ∧ .started request.component id ∈ later) := by
  have hr : Reach (step options) threadsStart IsInitial t :=
    reach_run (.step .start h (fun heq => by cases heq) hs) hok hrun
  have hb := reach_balanced hr
  obtain ⟨hlogged, hfinished, hbase⟩ := run_logged h hs hok hmoves hrun
  have hledger := hb.account.ledger
  have hstarted : (startedIn t.log).Perm ((executedOf options s' moves ++ executingEvents t.workers).map Event.key) := by
    rw [List.map_append]
    refine hledger.done.trans (List.Perm.append_right _ ?_)
    rw [hfinished]
    exact List.reverse_perm _
  refine ⟨?_, ⟨hlogged, hledger.distinct, hstarted, ?_, hledger.joined⟩, ?_, ?_⟩
  · obtain ⟨hcoalesced, hdispatched, hsum⟩ := hb.counters
    rw [hbase] at hcoalesced hdispatched hsum
    refine ⟨hcoalesced, hdispatched, ?_⟩
    rw [← hsum, ← length_requestsOf, hlogged, List.length_reverse, List.length_map]
  · rw [List.map_append]
    exact hledger.taken.trans (hstarted.append_right _)
  · exact fun move u hmove hu => step_keeps hb hu hmove
  · intro u hu
    refine ⟨(hb.cleared hu).1, fun n request hn => ?_⟩
    have hentry : (requestsOf t.log).reverse[n]? = some request.component := by
      rw [hlogged, List.reverse_reverse, List.getElem?_map, hn]
      rfl
    obtain ⟨later, entry, earlier, id, hlog, hlength, hstarted, hended, hfate⟩ := hb.request_served hu hentry
    rw [hfinished, List.count_reverse] at hended
    exact ⟨later, entry, earlier, id, hlog, hlength, hstarted, hended, hfate⟩

/-- A component triggered twice more while it executes, with `Stop` called before it is done. -/
def retriggeredRun : List Move :=
  [.install, .finishStart, .trigger [97], .enqueueCall 0 {}, .workerBegins 0, .workerDispatches 0 5, .trigger [97],
    .trigger [97], .enqueueCall 0 {}, .enqueueCall 0 {}, .stop, .stopNotify, .workerCompletes 0 .ok [],
    .workerDispatches 0 0, .workerCompletes 0 .ok [], .workerDispatches 0 0, .workerLeaves 0]

theorem threads_start {moves : List Move} (h : Move.installFails ∉ moves) (s : State) :
    RunOk (step options) threadsStart s moves := by
  refine runOk_of_forall (fun move hmove _ heq => ?_) s
  rw [heq] at hmove
  exact absurd hmove h

theorem a_retriggered_component_runs_once_more :
    ∃ s s' t u, Reach (step {}) threadsStart IsInitial s ∧ step {} s .start = some s'
      ∧ run (step {}) s' retriggeredRun = some t ∧ step {} t .stopClear = some u
      ∧ acceptedOf {} s' retriggeredRun = [⟨[97], 0, 0⟩, ⟨[97], 0, 0⟩, ⟨[97], 0, 0⟩]
      ∧ (executedOf {} s' retriggeredRun).map Event.key = [([97], 0), ([97], 1)]
      ∧ (acceptedOf {} s' retriggeredRun).length = (t.coalescedEvents - s'.coalescedEvents)
        + (t.dispatchedEvents - s'.dispatchedEvents) + t.activeEvents + t.pendingEvents.length
      ∧ t.pendingEvents = []
      ∧ ∀ (n : Nat) (request : Request), (acceptedOf {} s' retriggeredRun)[n]? = some request →
        ∃ later entry earlier id, t.log = later ++ entry :: earlier ∧ (requestsOf earlier).length = n
          ∧ (startedIn t.log).count (request.component, id) = 1
          ∧ ((executedOf {} s' retriggeredRun).map Event.key).count (request.component, id) = 1
          ∧ (entry = .queued request.component id
            ∨ entry = .coalesced request.component (some id) ∧ .queued request.component id ∈ earlier
              ∧ .started request.component id ∉ earlier ∧ .started request.component id ∈ later) := by
  have hregistered : ∃ s, run (step {}) (initial 0) [.register [97] [{}]] = some s
      ∧ ((step {} s .start).bind fun s' => (run (step {}) s' retriggeredRun).map fun t =>
        ((step {} t .stopClear).isSome, acceptedOf {} s' retriggeredRun,
          (executedOf {} s' retriggeredRun).map Event.key))
        = some (true, [⟨[97], 0, 0⟩, ⟨[97], 0, 0⟩, ⟨[97], 0, 0⟩], [([97], 0), ([97], 1)]) :=
    ⟨_, rfl, by decide +kernel⟩
  obtain ⟨s, hs, hends⟩ := hregistered
  obtain ⟨s', hstart, hends⟩ := Option.bind_eq_some_iff.mp hends
  obtain ⟨t, hrun, hends⟩ := Option.map_eq_some_iff.mp hends
  obtain ⟨hclear, hends⟩ := Prod.mk.inj hends
  obtain ⟨haccepted, hexecuted⟩ := Prod.mk.inj hends
  obtain ⟨u, hu⟩ := Option.isSome_iff_exists.mp hclear
  have hreach : Reach (step {}) threadsStart IsInitial s :=
    reach_run (.init ⟨0, rfl⟩) (threads_start (by decide) _) hs
  obtain ⟨⟨-, -, hsum⟩, -, -, hserved⟩ :=
    requests_are_conserved hreach hstart (threads_start (by decide) s') (by decide) hrun
  exact ⟨s, s', t, u, hreach, hstart, hrun, hu, haccepted, hexecuted, hsum, (hserved u hu).1, (hserved u hu).2⟩

end PuppetMaster.Scheduler
