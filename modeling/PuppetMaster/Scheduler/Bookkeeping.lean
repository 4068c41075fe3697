/-
  PuppetMaster.Scheduler.Bookkeeping — the queue, the executing set and the lifecycle flags.

  Three invariants, each over the fields it speaks of. `QueueOk`: the queue holds each
  component once, and `queued_components` are its components. `ExecOk`: the executing set
  is the components of the events the workers hold, without repetition, and
  `active_events` counts them. `Life`: what the flags say about the callers in `Start` and
  `Stop`, how many workers there are, and that outside a run everything is `Cleared`.
  `Inv` joins them; `step_inv` is one move, `reach_inv` any run.
-/

import Mathlib.Data.List.Nodup
import PuppetMaster.Lib.Lists
import PuppetMaster.Scheduler.Machine

namespace PuppetMaster.Scheduler

open PuppetMaster.Core PuppetMaster.Lib

/-! ## What the workers hold -/

def WorkerPc.event? : WorkerPc → Option Event
  | .executing event => some event
  | _ => none

/-- The events between selection and completion, one per worker that executes. -/
def executingEvents (workers : List WorkerPc) : List Event := workers.filterMap WorkerPc.event?

@[simp] theorem event?_wake (pc : WorkerPc) : pc.wake.event? = pc.event? := by
  cases pc <;> rfl

@[simp] theorem executingEvents_notifyAll (workers : List WorkerPc) :
    executingEvents (notifyAll workers) = executingEvents workers := by
  simp [executingEvents, notifyAll, List.filterMap_map]

@[simp] theorem length_notifyAll (workers : List WorkerPc) : (notifyAll workers).length = workers.length := by
  simp [notifyAll]

theorem wake_wake (pc : WorkerPc) : pc.wake.wake = pc.wake := by
  cases pc <;> rfl

/-- Up to wake-ups, `notify_one` changes nothing. -/
theorem notifyAll_notifyOne (workers : List WorkerPc) (pick : Nat) :
    notifyAll (notifyOne workers pick) = notifyAll workers := by
  unfold notifyOne
  split
  · rfl
  · rename_i i _
    unfold notifyAll wakeWorker
    refine List.ext_getElem? fun k => ?_
    simp only [List.getElem?_map, List.getElem?_modify]
    by_cases hk : i = k
    · simp [hk, Function.comp_def, wake_wake]
    · simp [hk]

theorem executingEvents_exited {workers : List WorkerPc} (h : ∀ pc ∈ workers, pc = .exited) :
    executingEvents workers = [] := by
  rw [executingEvents, List.filterMap_eq_nil_iff]
  intro pc hpc
  rw [h pc hpc]
  rfl

/-! ## Frame of queueing and propagation -/

/-- What queueing an event, or several, leaves as it was. -/
structure QueueFrame (s t : State) : Prop where
  running : t.running = s.running
  starting : t.starting = s.starting
  stopping : t.stopping = s.stopping
  start : t.start = s.start
  stop : t.stop = s.stop
  taskDependents : t.taskDependents = s.taskDependents
  executing : t.executingComponents = s.executingComponents
  active : t.activeEvents = s.activeEvents
  dispatched : t.dispatchedEvents = s.dispatchedEvents
  base : t.base = s.base
  run : t.run = s.run
  woken : notifyAll t.workers = notifyAll s.workers

theorem QueueFrame.held {s t : State} (h : QueueFrame s t) : executingEvents t.workers = executingEvents s.workers := by
  rw [← executingEvents_notifyAll, h.woken, executingEvents_notifyAll]

theorem QueueFrame.workers {s t : State} (h : QueueFrame s t) : t.workers.length = s.workers.length := by
  rw [← length_notifyAll, h.woken, length_notifyAll]

theorem QueueFrame.trans {s t u : State} (h : QueueFrame s t) (h' : QueueFrame t u) : QueueFrame s u :=
  ⟨h'.running.trans h.running, h'.starting.trans h.starting, h'.stopping.trans h.stopping, h'.start.trans h.start,
    h'.stop.trans h.stop, h'.taskDependents.trans h.taskDependents, h'.executing.trans h.executing,
    h'.active.trans h.active, h'.dispatched.trans h.dispatched, h'.base.trans h.base, h'.run.trans h.run,
    h'.woken.trans h.woken⟩

theorem queueEvent_frame (s : State) (request : Request) (choice : Choice) :
    QueueFrame s (queueEvent s request choice) := by
  unfold queueEvent
  split
  · exact ⟨rfl, rfl, rfl, rfl, rfl, rfl, rfl, rfl, rfl, rfl, rfl, rfl⟩
  · exact ⟨rfl, rfl, rfl, rfl, rfl, rfl, rfl, rfl, rfl, rfl, rfl, notifyAll_notifyOne _ _⟩

/-- What every queueing keeps, whatever the trigger states are, a propagation keeps. -/
theorem propagate_induct {P : State → Prop} (hqueue : ∀ s request choice, P s → P (queueEvent s request choice))
    (hset : ∀ s name index trigger, P s → P { s with components := setTaskTrigger s.components name index trigger })
    (hend : ∀ s, P s → P { s with terminated := true }) {s : State} (h : P s) (dependents : List TaskDependent)
    (choices : List Choice) : P (propagate s dependents choices) := by
  induction dependents generalizing s choices with
  | nil => exact h
  | cons dependent rest ih =>
    simp only [propagate]
    split
    · exact hend s h
    · split
      · exact ih (hqueue _ _ _ (hset _ _ _ _ h)) _
      · exact ih (hset _ _ _ _ h) _

theorem propagate_frame (s : State) (dependents : List TaskDependent) (choices : List Choice) :
    QueueFrame s (propagate s dependents choices) := by
  refine propagate_induct (P := QueueFrame s) ?_ ?_ ?_ ?_ dependents choices
  · exact fun u request choice h => h.trans (queueEvent_frame u request choice)
  · exact fun u name index trigger h => ⟨h.1, h.2, h.3, h.4, h.5, h.6, h.7, h.8, h.9, h.10, h.11, h.12⟩
  · exact fun u h => ⟨h.1, h.2, h.3, h.4, h.5, h.6, h.7, h.8, h.9, h.10, h.11, h.12⟩
  · exact ⟨rfl, rfl, rfl, rfl, rfl, rfl, rfl, rfl, rfl, rfl, rfl, rfl⟩

/--
What a notification can do: nothing, or, while the scheduler accepts events, note something
about the triggers and then perhaps queue an event.
-/
theorem invoke_induct {P : State → Prop} {s : State} (callback : Callback) (choice : Choice) (h : P s)
    (hnote : ∀ components effects faults, accepting s = true →
      P { s with components := components, effects := effects, faults := faults })
    (hqueue : ∀ components effects faults request, accepting s = true →
      P (queueEvent { s with components := components, effects := effects, faults := faults } request choice)) :
    P (invoke s callback choice) := by
  unfold invoke
  split
  · unfold onDataAvailable
    split
    · exact h
    · rename_i ha
      have ha : accepting s = true := by simpa using ha
      split
      · exact hnote _ _ _ ha
      · split
        · exact hqueue _ _ _ _ ha
        · exact hnote _ _ _ ha
  · split
    · rename_i ha
      exact hqueue _ _ _ _ ha
    · exact h

/-! ## The queue -/

structure QueueOk (pending : List Event) (queued : List Name) : Prop where
  distinct : (pending.map Event.component).Nodup
  same : ∀ c, c ∈ queued ↔ c ∈ pending.map Event.component
  set : queued.Nodup

theorem QueueOk.nil : QueueOk [] [] := ⟨List.nodup_nil, fun _ => by simp, List.nodup_nil⟩

theorem QueueOk.push {pending : List Event} {queued : List Name} (h : QueueOk pending queued) {e : Event}
    (hnew : e.component ∉ queued) : QueueOk (pending ++ [e]) (e.component :: queued) := by
  refine ⟨?_, ?_, List.nodup_cons.mpr ⟨hnew, h.set⟩⟩
  · have hfresh : e.component ∉ pending.map Event.component := fun hm => hnew ((h.same _).mpr hm)
    simp only [List.map_append, List.map_cons, List.map_nil]
    exact List.nodup_append.mpr ⟨h.distinct, List.nodup_singleton _, fun a ha b hb heq =>
      hfresh (by rw [List.mem_singleton.mp hb] at heq; exact heq ▸ ha)⟩
  · intro c
    simp only [List.mem_cons, List.map_append, List.map_cons, List.map_nil, List.mem_append, h.same c]
    constructor
    · intro h
      rcases h with h | h
      · exact .inr (.inl h)
      · exact .inl h
    · intro h
      rcases h with h | h | h
      · exact .inr h
      · exact .inl h
      · cases h

/-- Taking the event at `index` out of the queue, and its component out of the set. -/
theorem QueueOk.take {pending : List Event} {queued : List Name} (h : QueueOk pending queued) {index : Nat} {e : Event}
    (he : pending[index]? = some e) :
    QueueOk (pending.eraseIdx index) (queued.filter fun c => c ≠ e.component) := by
  have hperm := (perm_cons_eraseIdx he).symm
  have hnodup : (e.component :: (pending.eraseIdx index).map Event.component).Nodup :=
    (hperm.map Event.component).nodup_iff.mpr h.distinct
  refine ⟨(List.nodup_cons.mp hnodup).2, ?_, h.set.filter _⟩
  intro c
  have hmem : c ∈ pending.map Event.component ↔ c = e.component ∨ c ∈ (pending.eraseIdx index).map Event.component := by
    rw [← (hperm.map Event.component).mem_iff, List.map_cons, List.mem_cons]
  simp only [List.mem_filter, h.same c, hmem, decide_eq_true_eq]
  constructor
  · intro h
    obtain ⟨h | h, hne⟩ := h
    · exact absurd h hne
    · exact h
  · intro hc
    exact ⟨.inr hc, fun heq => (List.nodup_cons.mp hnodup).1 (heq ▸ hc)⟩

theorem queueEvent_queueOk {s : State} {request : Request} {choice : Choice}
    (h : QueueOk s.pendingEvents s.queuedComponents) :
    QueueOk (queueEvent s request choice).pendingEvents (queueEvent s request choice).queuedComponents := by
  unfold queueEvent
  split
  · exact h
  · rename_i hnew
    exact h.push (e := ⟨_, _, _, _, _, _⟩) hnew

theorem propagate_queueOk {s : State} (h : QueueOk s.pendingEvents s.queuedComponents)
    (dependents : List TaskDependent) (choices : List Choice) :
    QueueOk (propagate s dependents choices).pendingEvents (propagate s dependents choices).queuedComponents :=
  propagate_induct (P := fun t => QueueOk t.pendingEvents t.queuedComponents)
    (fun _ _ _ => queueEvent_queueOk) (fun _ _ _ _ h => h) (fun _ h => h) h dependents choices

/-! ## The executing set -/

structure ExecOk (executing : List Name) (active : Nat) (workers : List WorkerPc) : Prop where
  held : executing.Perm ((executingEvents workers).map Event.component)
  distinct : executing.Nodup
  active : active = executing.length

theorem ExecOk.of_held {executing : List Name} {active : Nat} {workers workers' : List WorkerPc}
    (h : ExecOk executing active workers) (he : executingEvents workers' = executingEvents workers) :
    ExecOk executing active workers' :=
  ⟨by rw [he]; exact h.held, h.distinct, h.active⟩

/-- A worker takes an event of a component that nobody executes. -/
theorem ExecOk.take {executing : List Name} {active : Nat} {workers : List WorkerPc} (h : ExecOk executing active workers)
    {i : Nat} {pc : WorkerPc} {e : Event} (hi : workers[i]? = some pc) (hpc : pc.event? = none)
    (hnew : e.component ∉ executing) :
    ExecOk (e.component :: executing) (active + 1) (workers.set i (.executing e)) := by
  refine ⟨?_, List.nodup_cons.mpr ⟨hnew, h.distinct⟩, by simp [h.active]⟩
  have hset : (executingEvents (workers.set i (.executing e))).Perm (e :: executingEvents workers) := by
    have := filterMap_set_perm (f := WorkerPc.event?) (.executing e) hi
    rw [hpc] at this
    exact this
  exact (h.held.cons e.component).trans (hset.map Event.component).symm

/-- A worker is done with its event. -/
theorem ExecOk.drop {executing : List Name} {active : Nat} {workers : List WorkerPc} (h : ExecOk executing active workers)
    {i : Nat} {e : Event} (hi : workers[i]? = some (.executing e)) :
    ExecOk (executing.filter fun c => c ≠ e.component) (active - 1) (workers.set i .top) := by
  have hset : (e :: executingEvents (workers.set i .top)).Perm (executingEvents workers) :=
    filterMap_set_perm (f := WorkerPc.event?) .top hi
  have hheld : executing.Perm (e.component :: (executingEvents (workers.set i .top)).map Event.component) :=
    h.held.trans (hset.map Event.component).symm
  have hnodup := hheld.nodup_iff.mp h.distinct
  obtain ⟨hfresh, -⟩ := List.nodup_cons.mp hnodup
  have hrest : (executing.filter fun c => c ≠ e.component).Perm
      ((executingEvents (workers.set i .top)).map Event.component) := by
    refine (hheld.filter fun c => c ≠ e.component).trans ?_
    rw [List.filter_cons_of_neg (by simp), List.filter_eq_self.mpr]
    intro c hc
    simp only [decide_eq_true_eq]
    exact fun heq => hfresh (heq ▸ hc)
  refine ⟨hrest, h.distinct.filter _, ?_⟩
  have := hheld.length_eq
  rw [hrest.length_eq, h.active, this, List.length_cons, Nat.add_sub_cancel]

/-! ## The lifecycle -/

/-- Workers that `Start` has still to spawn. -/
def spawnsLeft : StartPc → Nat
  | .installing ops => ops.count .spawnWorker
  | _ => 0

/-- Nothing is left of a run. -/
structure Cleared (s : State) : Prop where
  workers : s.workers = []
  timers : s.timers = []
  pending : s.pendingEvents = []
  queued : s.queuedComponents = []
  executing : s.executingComponents = []
  active : s.activeEvents = 0
  dependents : s.taskDependents = []
  triggers : ∀ c ∈ s.components, c.dataTriggerReaders = [] ∧ c.dataTriggers = [] ∧ c.taskTriggers = []

structure Life (options : SchedulerOptions) (s : State) : Prop where
  starting : s.starting = true ↔ s.start ≠ .idle
  stopping : s.stopping = true ↔ s.stop ≠ .idle
  exclusive : s.stop ≠ .idle → s.running = false
  installing : ∀ ops, s.start = .installing ops → s.running = true
  failing : s.start = .failing → s.running = true ∨ s.stop ≠ .idle
  finishing : s.start = .finishing → s.running = false ∧ s.stop = .idle
  workers : s.workers.length + spawnsLeft s.start ≤ options.workerCount
  quiet : s.running = false → s.stop = .idle → Cleared s

/-- The flags, the callers and the number of workers are as before. -/
theorem Life.frame {options : SchedulerOptions} {s t : State} (h : Life options s) (hrunning : t.running = s.running)
    (hstarting : t.starting = s.starting) (hstopping : t.stopping = s.stopping) (hstart : t.start = s.start)
    (hstop : t.stop = s.stop) (hworkers : t.workers.length = s.workers.length)
    (hquiet : s.running = false → s.stop = .idle → Cleared t) : Life options t := by
  refine ⟨?_, ?_, ?_, ?_, ?_, ?_, ?_, ?_⟩
  · rw [hstarting, hstart]; exact h.starting
  · rw [hstopping, hstop]; exact h.stopping
  · rw [hstop, hrunning]; exact h.exclusive
  · rw [hstart, hrunning]; exact h.installing
  · rw [hstart, hrunning, hstop]; exact h.failing
  · rw [hstart, hrunning, hstop]; exact h.finishing
  · rw [hworkers, hstart]; exact h.workers
  · rw [hrunning, hstop]; exact hquiet

structure Inv (options : SchedulerOptions) (s : State) : Prop where
  queue : QueueOk s.pendingEvents s.queuedComponents
  exec : ExecOk s.executingComponents s.activeEvents s.workers
  life : Life options s

variable {options : SchedulerOptions} {s t : State}

theorem Life.accepting_running (h : Life options s) : accepting s = true ↔ s.running = true := by
  unfold accepting
  constructor
  · intro ha
    exact (Bool.and_eq_true_iff.mp ha).1
  · intro hr
    have hstop : s.stop = .idle := by
      by_contra hne
      simp [h.exclusive hne] at hr
    have hns : s.stopping = false := by
      by_contra hne
      exact h.stopping.mp (by simpa using hne) hstop
    simp [hr, hns]

/-- A state with a worker belongs to a run. -/
theorem Life.in_run (h : Life options s) {i : Nat} {pc : WorkerPc} (hi : s.workers[i]? = some pc)
    (hr : s.running = false) (hs : s.stop = .idle) : False := by
  rw [(h.quiet hr hs).workers] at hi
  cases hi

theorem Inv.queue_event (h : Inv options s) (hr : s.running = true) (request : Request) (choice : Choice) :
    Inv options (queueEvent s request choice) := by
  have hf := queueEvent_frame s request choice
  refine ⟨queueEvent_queueOk h.queue, ?_, ?_⟩
  · rw [hf.executing, hf.active]
    exact h.exec.of_held hf.held
  · refine h.life.frame hf.running hf.starting hf.stopping hf.start hf.stop hf.workers fun hr' => ?_
    rw [hr] at hr'
    cases hr'

theorem Inv.enqueue (h : Inv options s) (request : Request) (choice : Choice) :
    Inv options (enqueue s request choice).1 := by
  unfold Scheduler.enqueue
  split
  · rename_i ha
    exact h.queue_event (h.life.accepting_running.mp ha) request choice
  · exact h

/-! ## One move -/

/-- The trigger states and the history of notifications may change while a run is on. -/
theorem Inv.note (h : Inv options s) (hr : s.running = true) (components : List ScheduledComponent)
    (effects : List (Nat × Nat)) (faults : Nat) :
    Inv options { s with components := components, effects := effects, faults := faults } := by
  refine ⟨h.queue, h.exec, h.life.frame rfl rfl rfl rfl rfl rfl fun hr' => ?_⟩
  rw [hr] at hr'
  cases hr'

theorem Inv.invoke (h : Inv options s) (callback : Callback) (choice : Choice) :
    Inv options (invoke s callback choice) := by
  refine invoke_induct callback choice h ?_ ?_
  · exact fun components effects faults ha => h.note (h.life.accepting_running.mp ha) _ _ _
  · intro components effects faults request ha
    have hr := h.life.accepting_running.mp ha
    exact Inv.queue_event (h.note hr components effects faults) hr request choice

/-- A worker that holds nothing goes on to a place where it holds nothing. -/
theorem Inv.set_worker (h : Inv options s) {i : Nat} {old : WorkerPc} (new : WorkerPc) (hi : s.workers[i]? = some old)
    (he : new.event? = old.event?) : Inv options (setWorker s i new) := by
  refine ⟨h.queue, h.exec.of_held (filterMap_set_eq hi he), ?_⟩
  refine h.life.frame rfl rfl rfl rfl rfl (by simp [setWorker]) fun hr hs => ?_
  exact (h.life.in_run hi hr hs).elim

theorem Inv.dispatch (h : Inv options s) {i : Nat} {pc : WorkerPc} (elapsed : Nat) (hi : s.workers[i]? = some pc)
    (hpc : pc.event? = none) : Inv options (dispatch options s i elapsed) := by
  have hadvance : Inv options { s with clock := s.clock + elapsed } :=
    ⟨h.queue, h.exec, h.life.frame rfl rfl rfl rfl rfl rfl fun hr hs => (h.life.in_run hi hr hs).elim⟩
  unfold Scheduler.dispatch
  split
  · exact h.set_worker _ hi hpc.symm
  · split
    · exact h.set_worker _ hi hpc.symm
    · dsimp only
      split
      · exact hadvance.set_worker _ hi hpc.symm
      · rename_i index event hsel
        obtain ⟨hat, hnew⟩ := selectEvent_some hsel
        refine ⟨h.queue.take hat, h.exec.take hi hpc hnew, ?_⟩
        refine h.life.frame rfl rfl rfl rfl rfl (by simp [setWorker]) fun hr hs => ?_
        exact (h.life.in_run hi hr hs).elim

theorem Inv.finish (h : Inv options s) {i : Nat} {event : Event} (status : Status)
    (hi : s.workers[i]? = some (.executing event)) : Inv options (finish s i event status) := by
  refine ⟨h.queue, (h.exec.drop hi).of_held (executingEvents_notifyAll _), ?_⟩
  refine h.life.frame rfl rfl rfl rfl rfl (by simp [Scheduler.finish]) fun hr hs => ?_
  exact (h.life.in_run hi hr hs).elim

theorem Inv.propagate (h : Inv options s) (hin : s.running = false → s.stop = .idle → False)
    (dependents : List TaskDependent) (choices : List Choice) : Inv options (propagate s dependents choices) := by
  have hf := propagate_frame s dependents choices
  refine ⟨propagate_queueOk h.queue _ _, ?_, ?_⟩
  · rw [hf.executing, hf.active]
    exact h.exec.of_held hf.held
  · exact h.life.frame hf.running hf.starting hf.stopping hf.start hf.stop hf.workers fun hr hs => (hin hr hs).elim

theorem Inv.complete (h : Inv options s) {i : Nat} {event : Event} (status : Status) (choices : List Choice)
    (hi : s.workers[i]? = some (.executing event)) : Inv options (complete s i event status choices) := by
  unfold Scheduler.complete
  split
  · exact (h.finish status hi).propagate (h.life.in_run hi) _ _
  · exact h.finish status hi

/-! ## Start and Stop -/

theorem mem_insertComponent {components : List ScheduledComponent} {c d : ScheduledComponent}
    (h : d ∈ insertComponent components c) : d = c ∨ d ∈ components := by
  rcases List.mem_append.mp h with h | h
  · exact .inr ((List.takeWhile_sublist _).subset h)
  · rcases List.mem_cons.mp h with h | h
    · exact .inl h
    · exact .inr ((List.dropWhile_sublist _).subset h)

theorem Inv.register (h : Inv options s) (name : Name) (triggers : List TriggerSpec) :
    Inv options { s with components := insertComponent s.components { name := name, triggers := triggers } } := by
  refine ⟨h.queue, h.exec, h.life.frame rfl rfl rfl rfl rfl rfl fun hr hs => ?_⟩
  have hc := h.life.quiet hr hs
  refine ⟨hc.workers, hc.timers, hc.pending, hc.queued, hc.executing, hc.active, hc.dependents, fun c hmem => ?_⟩
  rcases mem_insertComponent hmem with rfl | hmem
  · exact ⟨rfl, rfl, rfl⟩
  · exact hc.triggers c hmem

theorem count_spawn_flatMap {ops : Name → TriggerSpec → List InstallOp}
    (h : ∀ name trigger, .spawnWorker ∉ ops name trigger) (components : List ScheduledComponent) :
    (components.flatMap fun c => c.triggers.flatMap (ops c.name)).count .spawnWorker = 0 := by
  refine List.count_eq_zero.mpr fun hmem => ?_
  obtain ⟨c, -, hc⟩ := List.mem_flatMap.mp hmem
  obtain ⟨trigger, -, ht⟩ := List.mem_flatMap.mp hc
  exact h _ _ ht

/-- `Start` spawns `worker_count` workers. -/
theorem count_spawn_installPlan (options : SchedulerOptions) (components : List ScheduledComponent) :
    (installPlan options components).count .spawnWorker = options.workerCount := by
  have hdata : ∀ name trigger, .spawnWorker ∉ dataOps name trigger := by
    intro name trigger
    unfold dataOps
    split <;> simp
  have hservice : ∀ name trigger, .spawnWorker ∉ serviceOps name trigger := by
    intro name trigger
    unfold serviceOps
    split <;> simp
  have htimer : ∀ name trigger, .spawnWorker ∉ timerOps name trigger := by
    intro name trigger
    unfold timerOps
    split <;> simp
  simp only [installPlan, List.count_append, List.count_replicate_self, count_spawn_flatMap hdata,
    count_spawn_flatMap hservice, count_spawn_flatMap htimer, Nat.add_zero]

/-- `Start` begins from a cleared scheduler. -/
theorem Life.cleared_at_start (h : Life options s) (hs : startFirst options s = .ok t) : Cleared s ∧ s.stop = .idle := by
  obtain ⟨-, hstopping, hrunning, -⟩ := startFirst_ok hs
  have hstop : s.stop = .idle := by
    by_contra hne
    rw [h.stopping.mpr hne] at hstopping
    cases hstopping
  exact ⟨h.quiet hrunning hstop, hstop⟩

theorem Inv.start (h : Inv options s) (hs : startFirst options s = .ok t) : Inv options t := by
  obtain ⟨hc, hstop⟩ := h.life.cleared_at_start hs
  obtain ⟨-, -, -, -, graph, -, rfl⟩ := startFirst_ok hs
  refine ⟨h.queue, h.exec, ?_⟩
  refine ⟨by simp, by simp [hstop], fun hne => absurd hstop hne, fun _ _ => rfl, by simp, by simp, ?_, by simp⟩
  simp [hc.workers, spawnsLeft, count_spawn_installPlan]

theorem Inv.install (h : Inv options s) {op : InstallOp} {ops : List InstallOp}
    (hs : s.start = .installing (op :: ops)) : Inv options { install s op with start := .installing ops } := by
  have hr := h.life.installing _ hs
  have hstop : s.stop = .idle := by
    by_contra hne
    simp [h.life.exclusive hne] at hr
  have hnotIdle : s.starting = true := h.life.starting.mpr (by simp [hs])
  have hlife : ∀ t : State, t.running = s.running → t.starting = s.starting → t.stopping = s.stopping →
      t.stop = s.stop → t.start = .installing ops → t.workers.length + ops.count .spawnWorker ≤ options.workerCount →
      Life options t := by
    intro t h1 h2 h3 h4 h5 h6
    refine ⟨by simp [h2, h5, hnotIdle], by rw [h3, h4]; exact h.life.stopping, by simp [h4, hstop], ?_, by simp [h5],
      by simp [h5], by simpa [h5, spawnsLeft] using h6, by simp [h1, hr]⟩
    intro _ _
    rw [h1, hr]
  have hspawns : s.workers.length + (op :: ops).count .spawnWorker ≤ options.workerCount := by
    have := h.life.workers
    rwa [hs] at this
  have hothers : op ≠ .spawnWorker → s.workers.length + ops.count .spawnWorker ≤ options.workerCount := by
    intro hne
    rwa [List.count_cons_of_ne hne] at hspawns
  cases op with
  | spawnWorker =>
    refine ⟨h.queue, h.exec.of_held (by simp [Scheduler.install, executingEvents, WorkerPc.event?]), ?_⟩
    refine hlife _ rfl rfl rfl rfl rfl ?_
    simp only [Scheduler.install, List.length_append, List.length_singleton]
    rw [List.count_cons_self] at hspawns
    omega
  | pushDataTrigger name trigger => exact ⟨h.queue, h.exec, hlife _ rfl rfl rfl rfl rfl (hothers (by simp))⟩
  | setDataCallback name topic => exact ⟨h.queue, h.exec, hlife _ rfl rfl rfl rfl rfl (hothers (by simp))⟩
  | setServiceCallback name deadline priority =>
    exact ⟨h.queue, h.exec, hlife _ rfl rfl rfl rfl rfl (hothers (by simp))⟩
  | pushReader name => exact ⟨h.queue, h.exec, hlife _ rfl rfl rfl rfl rfl (hothers (by simp))⟩
  | spawnTimer request => exact ⟨h.queue, h.exec, hlife _ rfl rfl rfl rfl rfl (hothers (by simp))⟩

theorem Inv.stop_first (h : Inv options s) (hr : s.running = true) (hstart : s.start = .idle ∨ s.start = .failing) :
    Inv options (stopFirst s) := by
  refine ⟨h.queue, h.exec, ?_⟩
  refine ⟨h.life.starting, by simp [stopFirst], fun _ => rfl, ?_, fun _ => .inr (by simp [stopFirst]), ?_,
    h.life.workers, by simp [stopFirst]⟩
  · intro ops hops
    rcases hstart with hstart | hstart
    · cases hstart.symm.trans hops
    · cases hstart.symm.trans hops
  · intro hfin
    rw [(h.life.finishing hfin).1] at hr
    cases hr

/-- While `Stop` is between its first and last sections, `Start` is out, or waits for it. -/
theorem Life.start_during_stop (h : Life options s) (hstop : s.stop ≠ .idle) : s.start = .idle ∨ s.start = .failing := by
  cases hs : s.start with
  | idle => exact .inl rfl
  | failing => exact .inr rfl
  | installing ops =>
    have := h.installing ops hs
    rw [h.exclusive hstop] at this
    cases this
  | finishing => exact absurd (h.finishing hs).2 hstop

theorem joined_workers (h : joined s = true) : ∀ pc ∈ s.workers, pc = .exited := by
  intro pc hpc
  have := (Bool.and_eq_true_iff.mp h).1
  simpa using List.all_eq_true.mp this pc hpc

/-- Once all workers are joined nothing is executing. -/
theorem Inv.joined_idle (h : Inv options s) (hj : joined s = true) :
    s.executingComponents = [] ∧ s.activeEvents = 0 := by
  have hheld := h.exec.held
  rw [executingEvents_exited (joined_workers hj)] at hheld
  have hnil : s.executingComponents = [] := List.perm_nil.mp hheld
  exact ⟨hnil, by rw [h.exec.active, hnil]; rfl⟩

theorem Inv.stop_cleared (h : Inv options s) (hj : joined s = true) : Cleared (stopClear s) := by
  refine ⟨rfl, rfl, rfl, rfl, (h.joined_idle hj).1, rfl, rfl, fun c hc => ?_⟩
  obtain ⟨d, -, rfl⟩ := List.mem_map.mp hc
  exact ⟨rfl, rfl, rfl⟩

theorem Inv.stop_clear (h : Inv options s) (hpc : s.stop = .joining) (hj : joined s = true) :
    Inv options (stopClear s) := by
  have hc := h.stop_cleared hj
  have hstop : s.stop ≠ .idle := by simp [hpc]
  refine ⟨QueueOk.nil, ?_, ?_⟩
  · have : ExecOk [] 0 ([] : List WorkerPc) := ⟨List.Perm.nil, List.nodup_nil, rfl⟩
    simpa only [hc.executing, hc.active, hc.workers] using this
  · have hrun : (stopClear s).running = false := h.life.exclusive hstop
    have hstart : (stopClear s).start = .idle ∨ (stopClear s).start = .finishing := by
      rcases h.life.start_during_stop hstop with hs | hs
      · exact .inl (by simp [stopClear, hs])
      · exact .inr (by simp [stopClear, hs])
    have hstarting : (stopClear s).starting = true ↔ (stopClear s).start ≠ .idle := by
      have := h.life.starting
      rcases h.life.start_during_stop hstop with hs | hs
      · simpa [stopClear, hs] using this
      · simpa [stopClear, hs] using this
    refine ⟨hstarting, by simp [stopClear], fun _ => hrun, ?_, ?_, fun _ => ⟨hrun, rfl⟩, ?_, fun _ _ => hc⟩
    · intro ops hops
      rcases hstart with hs | hs
      · cases hs.symm.trans hops
      · cases hs.symm.trans hops
    · intro hf
      rcases hstart with hs | hs
      · cases hs.symm.trans hf
      · cases hs.symm.trans hf
    · rcases hstart with hs | hs
      · simp [hc.workers, hs, spawnsLeft]
      · simp [hc.workers, hs, spawnsLeft]

theorem Inv.install_fails (h : Inv options s) {op : InstallOp} {ops : List InstallOp}
    (hpc : s.start = .installing (op :: ops)) : Inv options { s with start := .failing, reader := none } := by
  have hr := h.life.installing _ hpc
  refine ⟨h.queue, h.exec, ?_⟩
  refine ⟨by simpa [hpc] using h.life.starting, h.life.stopping, h.life.exclusive, by simp, fun _ => .inl hr, by simp,
    ?_, ?_⟩
  · exact Nat.le_trans (Nat.add_le_add_left (Nat.zero_le _) _) h.life.workers
  · intro hr'
    rw [show s.running = false from hr'] at hr
    cases hr

theorem Inv.finish_start (h : Inv options s) : Inv options { s with start := .idle, starting := false } := by
  refine ⟨h.queue, h.exec, ?_⟩
  refine ⟨by simp, h.life.stopping, h.life.exclusive, by simp, by simp, by simp, ?_, ?_⟩
  · exact Nat.le_trans (Nat.add_le_add_left (Nat.zero_le _) _) h.life.workers
  · intro hr hs
    have hc := h.life.quiet hr hs
    exact ⟨hc.1, hc.2, hc.3, hc.4, hc.5, hc.6, hc.7, hc.8⟩

theorem Inv.stop_notify (h : Inv options s) (hpc : s.stop = .notifying) :
    Inv options { s with workers := notifyAll s.workers, stop := .joining } := by
  have hstop : s.stop ≠ .idle := by simp [hpc]
  refine ⟨h.queue, h.exec.of_held (executingEvents_notifyAll _), ?_⟩
  refine ⟨h.life.starting, by simp [h.life.stopping, hpc], fun _ => h.life.exclusive hstop, h.life.installing,
    fun _ => .inr (by simp), ?_, by simpa using h.life.workers, by simp⟩
  intro hf
  exact absurd (h.life.finishing hf).2 hstop

/-- Fields that no invariant reads: pending calls, copied callbacks, the clock. -/
theorem Inv.calls (h : Inv options s) (calls : List Request) (inFlight : List Callback) :
    Inv options { s with calls := calls, inFlight := inFlight } := by
  refine ⟨h.queue, h.exec, h.life.frame rfl rfl rfl rfl rfl rfl fun hr hs => ?_⟩
  have hc := h.life.quiet hr hs
  exact ⟨hc.1, hc.2, hc.3, hc.4, hc.5, hc.6, hc.7, hc.8⟩

theorem Inv.set_timer (h : Inv options s) {j : Nat} {old : Timer} (new : Timer) (hj : s.timers[j]? = some old) :
    Inv options (setTimer s j new) := by
  refine ⟨h.queue, h.exec, h.life.frame rfl rfl rfl rfl rfl rfl fun hr hs => ?_⟩
  rw [(h.life.quiet hr hs).timers] at hj
  cases hj

theorem initial_inv (options : SchedulerOptions) (clock : Int) : Inv options (initial clock) := by
  refine ⟨QueueOk.nil, ⟨List.Perm.nil, List.nodup_nil, rfl⟩, ?_⟩
  refine ⟨by simp [initial], by simp [initial], by simp [initial], by simp [initial], by simp [initial],
    by simp [initial], by simp [initial, spawnsLeft], fun _ _ => ?_⟩
  exact ⟨rfl, rfl, rfl, rfl, rfl, rfl, rfl, fun c hc => (by cases hc)⟩

theorem step_inv {move : Move} (h : Inv options s) (hs : step options s move = some t) : Inv options t := by
  cases transition_of_step hs with
  | register name triggers => exact h.register name triggers
  | start first => exact h.start first
  | install pc => exact h.install pc
  | installFails pc => exact h.install_fails pc
  | finishStart pc => exact h.finish_start
  | stop starting stopping running =>
    refine h.stop_first running (.inl ?_)
    by_contra hne
    rw [h.life.starting.mpr hne] at starting
    cases starting
  | stopFromStart pc stopping running => exact h.stop_first running (.inr pc)
  | stopNotify pc => exact h.stop_notify pc
  | stopClear pc hj => exact h.stop_clear pc hj
  | trigger found => exact h.calls _ _
  | enqueueCall choice call => exact (h.calls _ _).enqueue _ choice
  | copyCallback reader => exact h.calls _ _
  | invokeCallback choice copy => exact (h.calls _ _).invoke _ choice
  | timerExpires thread => exact h.set_timer _ thread
  | timerStops thread => exact h.set_timer _ thread
  | timerEnqueues choice thread => exact (h.set_timer _ thread).enqueue _ choice
  | workerBegins thread => exact h.set_worker _ thread rfl
  | workerDispatches elapsed thread at_ =>
    refine h.dispatch elapsed thread ?_
    rcases at_ with rfl | rfl
    · rfl
    · rfl
  | workerRetries thread => exact h.set_worker _ thread rfl
  | workerWakes thread => exact h.set_worker _ thread (event?_wake _)
  | workerCompletes status choices thread => exact h.complete status choices thread
  | workerLeaves thread => exact h.set_worker _ thread rfl

theorem reach_inv {ok : State → Move → Prop} (h : Reach (step options) ok IsInitial s) : Inv options s := by
  refine h.invariant ?_ fun s move t hi _ hs => step_inv hi hs
  intro s h
  obtain ⟨clock, rfl⟩ := h
  exact initial_inv options clock

/-! ## Exclusion and bookkeeping -/

/-- What the last section of `Stop` finds, before it clears anything. -/
def Drained (s : State) : Prop :=
  (∀ pc ∈ s.workers, pc = .exited) ∧ s.executingComponents = [] ∧ s.activeEvents = 0

theorem exclusion_and_bookkeeping (h : Reach (step options) anyMove IsInitial s) :
    (s.pendingEvents.map Event.component).Nodup
      ∧ (s.queuedComponents.Nodup ∧ ∀ c, c ∈ s.queuedComponents ↔ c ∈ s.pendingEvents.map Event.component)
      ∧ s.executingComponents.length = s.activeEvents
      ∧ s.activeEvents ≤ options.workerCount
      ∧ s.executingComponents.Perm ((executingEvents s.workers).map Event.component)
      ∧ ((executingEvents s.workers).map Event.component).Nodup
      ∧ ∀ t, step options s .stopClear = some t → Drained s ∧ Cleared t := by
  have hi := reach_inv h
  refine ⟨hi.queue.distinct, ⟨hi.queue.set, hi.queue.same⟩, hi.exec.active.symm, ?_, hi.exec.held,
    hi.exec.held.nodup_iff.mp hi.exec.distinct, ?_⟩
  · have hlen : s.activeEvents = (executingEvents s.workers).length := by
      rw [hi.exec.active, hi.exec.held.length_eq, List.length_map]
    have hle : (executingEvents s.workers).length ≤ s.workers.length := List.length_filterMap_le _ _
    have := hi.life.workers
    omega
  · intro t hs
    cases transition_of_step hs with
    | stopClear pc hj => exact ⟨⟨joined_workers hj, hi.joined_idle hj⟩, hi.stop_cleared hj⟩

/-- One manual trigger, executed by the only worker while `Stop` waits for it. -/
def manualRun : List Move :=
  [.register [97] [{}], .start, .install, .finishStart, .trigger [97], .enqueueCall 0 {}, .workerBegins 0,
    .workerDispatches 0 5, .stop, .stopNotify, .workerCompletes 0 .ok [], .workerDispatches 0 0, .workerLeaves 0]

theorem a_stopped_run_is_cleared :
    ∃ s t, s.dispatchedEvents = 1 ∧ step {} s .stopClear = some t ∧ Drained s ∧ Cleared t := by
  have hrun : ∃ s, Reach (step {}) anyMove IsInitial s
      ∧ (decide (s.dispatchedEvents = 1) && (step {} s .stopClear).isSome) = true :=
    reach_of_run manualRun _ ⟨0, rfl⟩ (by decide +kernel)
  obtain ⟨s, hs, hp⟩ := hrun
  obtain ⟨hone, hclear⟩ := Bool.and_eq_true_iff.mp hp
  obtain ⟨t, ht⟩ := Option.isSome_iff_exists.mp hclear
  exact ⟨s, t, of_decide_eq_true hone, ht, (exclusion_and_bookkeeping hs).2.2.2.2.2.2 t ht⟩

end PuppetMaster.Scheduler
