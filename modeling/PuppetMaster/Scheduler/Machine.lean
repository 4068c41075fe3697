/-
  PuppetMaster.Scheduler.Machine — `Scheduler::Impl`, one section of its mutex at a time.

  The threads are the caller in `Start` (`StartPc`), the caller in `Stop` (`StopPc`), any
  number of `Trigger` calls between their two sections (`calls`), the workers, the timers
  of the periodic triggers, and the transport's threads, which copy a reader's callback
  and invoke the copy at any later moment (`inFlight`). What the environment decides comes
  with the move: clock readings, the worker that `notify_one` wakes, the status of an
  execution, which installation step fails. A worker can wake without a notification.

  Two callers in `Start` or `Stop` at a time change nothing: the second one is refused by
  the flags, so each has one program counter here. `Stop` blocks while `starting` holds.
  Validation of the specs at registration is left out: any spec can be registered.

  History: `run` numbers the successful first sections of `Start`; `log` (newest first) is
  the account of the current run's requests and events; `base` is what the counters showed
  when the run began; `faults` counts the lookups of `OnDataAvailable` that were out of
  range, and `effects` pairs, for every notification that got past its guard and lookups,
  the run its callback was installed in and the run it took effect in.
-/

import PuppetMaster.Lib.Run
import PuppetMaster.Scheduler.TaskGraph
import PuppetMaster.Scheduler.Dispatch

namespace PuppetMaster.Scheduler

open PuppetMaster.Core PuppetMaster.Lib

/-! ## The state -/

/-- What a callback calls: `OnDataAvailable`, or `QueueEvent` behind its own guard. -/
inductive Target where
  | data (triggerIndex topicIndex : Nat)
  | service (deadline priority : Int)
  deriving DecidableEq, Repr

structure Callback where
  component : Name
  target : Target
  run : Nat
  deriving DecidableEq, Repr

/-- A trigger reader is known by the callback set on it. -/
structure ScheduledComponent where
  name : Name
  triggers : List TriggerSpec
  dataTriggerReaders : List Callback := []
  dataTriggers : List TriggerState := []
  taskTriggers : List TriggerState := []
  deriving DecidableEq, Repr

/--
A worker: not yet in its loop, at the top of it, in one of the two condition waits
(`notified`: the wait may return), executing, past the loop, gone.
-/
inductive WorkerPc where
  | spawned
  | top
  | waiting (notified : Bool)
  | stalled (notified : Bool)
  | executing (event : Event)
  | leaving
  | exited
  deriving DecidableEq, Repr

inductive TimerPc where
  | waiting
  | due
  | exited
  deriving DecidableEq, Repr

/-- A request on its way to `Enqueue`. -/
structure Request where
  component : Name
  deadline : Int
  priority : Int
  deriving DecidableEq, Repr

structure Timer where
  request : Request
  pc : TimerPc
  deriving DecidableEq, Repr

/-- The steps of `Start` after its first section. -/
inductive InstallOp where
  | spawnWorker
  | pushDataTrigger (component : Name) (trigger : TriggerSpec)
  | setDataCallback (component : Name) (topicIndex : Nat)
  | setServiceCallback (component : Name) (deadline priority : Int)
  | pushReader (component : Name)
  | spawnTimer (request : Request)
  deriving DecidableEq, Repr

/-- `failing`: on the way into, or inside, `Stop(true)`. `finishing`: after it. -/
inductive StartPc where
  | idle
  | installing (ops : List InstallOp)
  | failing
  | finishing
  deriving DecidableEq, Repr

inductive StopPc where
  | idle
  | notifying
  | joining
  deriving DecidableEq, Repr

/-- History: what happened to requests and events in the current run. -/
inductive Entry where
  | queued (component : Name) (event : Nat)
  | coalesced (component : Name) (into : Option Nat)
  | started (component : Name) (event : Nat)
  | finished (component : Name) (event : Nat)
  deriving DecidableEq, Repr

structure Base where
  dispatched : Nat
  coalesced : Nat
  deriving DecidableEq, Repr

structure State where
  running : Bool
  starting : Bool
  stopping : Bool
  /-- A worker's thread let an exception escape: `std::terminate`. -/
  terminated : Bool
  components : List ScheduledComponent
  taskDependents : List TaskDependent
  pendingEvents : List Event
  queuedComponents : List Name
  executingComponents : List Name
  activeEvents : Nat
  dispatchedEvents : Nat
  coalescedEvents : Nat
  agedDispatches : Nat
  lastStatus : Status
  clock : Int
  workers : List WorkerPc
  timers : List Timer
  start : StartPc
  /-- Locals of the installation: `trigger_index`, and the reader not yet pushed. -/
  triggerIndex : Nat
  reader : Option Callback
  stop : StopPc
  calls : List Request
  inFlight : List Callback
  run : Nat
  nextEvent : Nat
  base : Base
  log : List Entry
  faults : Nat
  effects : List (Nat × Nat)
  deriving DecidableEq

def initial (clock : Int) : State where
  running := false
  starting := false
  stopping := false
  terminated := false
  components := []
  taskDependents := []
  pendingEvents := []
  queuedComponents := []
  executingComponents := []
  activeEvents := 0
  dispatchedEvents := 0
  coalescedEvents := 0
  agedDispatches := 0
  lastStatus := .ok
  clock := clock
  workers := []
  timers := []
  start := .idle
  triggerIndex := 0
  reader := none
  stop := .idle
  calls := []
  inFlight := []
  run := 0
  nextEvent := 0
  base := ⟨0, 0⟩
  log := []
  faults := 0
  effects := []

def IsInitial (s : State) : Prop := ∃ clock, s = initial clock

/-! ## Components by name -/

/-- `components.find(name)`. -/
def findComponent (components : List ScheduledComponent) (name : Name) : Option ScheduledComponent :=
  components.find? fun c => c.name = name

def updateComponent (components : List ScheduledComponent) (name : Name)
    (f : ScheduledComponent → ScheduledComponent) : List ScheduledComponent :=
  components.map fun c => if c.name = name then f c else c

/-- `components.emplace`: the map is in key order. -/
def insertComponent (components : List ScheduledComponent) (c : ScheduledComponent) : List ScheduledComponent :=
  components.takeWhile (fun d => decide (d.name < c.name)) ++ c :: components.dropWhile fun d => decide (d.name < c.name)

/-! ## Condition variables of the workers -/

def WorkerPc.blocked : WorkerPc → Bool
  | .waiting false => true
  | .stalled false => true
  | _ => false

def WorkerPc.wake : WorkerPc → WorkerPc
  | .waiting _ => .waiting true
  | .stalled _ => .stalled true
  | pc => pc

def notifyAll (workers : List WorkerPc) : List WorkerPc := workers.map WorkerPc.wake

def wakeWorker (workers : List WorkerPc) (i : Nat) : List WorkerPc := workers.modify i WorkerPc.wake

/-- The indices of the workers that a notification can wake. -/
def blockedWorkers (workers : List WorkerPc) : List Nat :=
  (List.range workers.length).filter fun i => (workers[i]?.map WorkerPc.blocked).getD false

/-- `notify_one`: one blocked worker, which one is up to the environment, or nobody. -/
def notifyOne (workers : List WorkerPc) (pick : Nat) : List WorkerPc :=
  match (blockedWorkers workers)[pick % (blockedWorkers workers).length]? with
  | none => workers
  | some i => wakeWorker workers i

/-! ## Queueing -/

/-- What a call of `QueueEvent` leaves to its environment. -/
structure Choice where
  elapsed : Nat := 0
  pick : Nat := 0
  deriving DecidableEq, Repr

def queueEvent (s : State) (request : Request) (choice : Choice) : State :=
  if request.component ∈ s.queuedComponents then
    let into := (s.pendingEvents.find? fun e => e.component = request.component).map Event.id
    { s with
      coalescedEvents := s.coalescedEvents + 1
      log := .coalesced request.component into :: s.log }
  else
    let queuedAt := s.clock + choice.elapsed
    let event : Event :=
      ⟨request.component, request.deadline, request.priority, dueTime request.deadline queuedAt, queuedAt, s.nextEvent⟩
    { s with
      clock := queuedAt
      queuedComponents := request.component :: s.queuedComponents
      pendingEvents := s.pendingEvents ++ [event]
      workers := notifyOne s.workers choice.pick
      nextEvent := s.nextEvent + 1
      log := .queued request.component s.nextEvent :: s.log }

def accepting (s : State) : Bool := s.running && !s.stopping

def runningRequired : Status :=
  .error .failedPrecondition (text "scheduler must be running before accepting trigger events")

def enqueue (s : State) (request : Request) (choice : Choice) : State × Status :=
  if accepting s then (queueEvent s request choice, .ok) else (s, runningRequired)

/-- The first section of `Trigger`: the manual trigger it will enqueue for. -/
def findManual (s : State) (name : Name) : Except Status Request :=
  if !accepting s then .error runningRequired
  else
    match findComponent s.components name with
    | none => .error (.error .notFound (text "component is not registered in scheduler: " ++ name))
    | some c =>
      match findTrigger c.triggers .manual with
      | none => .error (.error .failedPrecondition (text "component has no manual trigger: " ++ name))
      | some manual => .ok ⟨name, effectiveDeadline manual, manual.priority⟩

/-! ## Notifications -/

def setDataTrigger (components : List ScheduledComponent) (name : Name) (index : Nat) (trigger : TriggerState) :
    List ScheduledComponent :=
  updateComponent components name fun c => { c with dataTriggers := c.dataTriggers.set index trigger }

def setTaskTrigger (components : List ScheduledComponent) (name : Name) (index : Nat) (trigger : TriggerState) :
    List ScheduledComponent :=
  updateComponent components name fun c => { c with taskTriggers := c.taskTriggers.set index trigger }

/-- `components.at(name).data_triggers.at(trigger_index)`, then the access to `ready`. -/
def lookupData (s : State) (name : Name) (triggerIndex topicIndex : Nat) :
    Option (TriggerState × TriggerState × Bool) := do
  let c ← findComponent s.components name
  let trigger ← c.dataTriggers[triggerIndex]?
  let (next, queue) ← trigger.notify topicIndex
  pure (trigger, next, queue)

/-- A lookup out of range throws, or is undefined: here it is counted, and nothing else changes. -/
def onDataAvailable (s : State) (name : Name) (triggerIndex topicIndex from_ : Nat) (choice : Choice) : State :=
  if !accepting s then s
  else
    match lookupData s name triggerIndex topicIndex with
    | none => { s with faults := s.faults + 1 }
    | some (trigger, next, queue) =>
      let noted := { s with
        components := setDataTrigger s.components name triggerIndex next
        effects := (from_, s.run) :: s.effects }
      if queue then queueEvent noted ⟨name, trigger.deadline, trigger.priority⟩ choice else noted

def invoke (s : State) (callback : Callback) (choice : Choice) : State :=
  match callback.target with
  | .data triggerIndex topicIndex => onDataAvailable s callback.component triggerIndex topicIndex callback.run choice
  | .service deadline priority =>
    if accepting s then
      queueEvent { s with effects := (callback.run, s.run) :: s.effects } ⟨callback.component, deadline, priority⟩ choice
    else s

/-! ## Workers -/

def lookupTask (s : State) (dependent : TaskDependent) : Option (TriggerState × TriggerState × Bool) := do
  let c ← findComponent s.components dependent.component
  let trigger ← c.taskTriggers[dependent.triggerIndex]?
  let (next, queue) ← trigger.notify dependent.dependencyIndex
  pure (trigger, next, queue)

/-- The loop over the dependents of a component that has completed. -/
def propagate : State → List TaskDependent → List Choice → State
  | s, [], _ => s
  | s, dependent :: rest, choices =>
    match lookupTask s dependent with
    | none => { s with terminated := true }
    | some (trigger, next, queue) =>
      let noted := { s with components := setTaskTrigger s.components dependent.component dependent.triggerIndex next }
      if queue then
        propagate (queueEvent noted ⟨dependent.component, trigger.deadline, trigger.priority⟩ (choices.headD {})) rest
          choices.tail
      else propagate noted rest choices

def setWorker (s : State) (i : Nat) (pc : WorkerPc) : State := { s with workers := s.workers.set i pc }

/-- The first section of the loop, when the worker gets the mutex. -/
def dispatch (options : SchedulerOptions) (s : State) (i : Nat) (elapsed : Nat) : State :=
  if !s.stopping && s.pendingEvents.isEmpty then setWorker s i (.waiting false)
  else if s.stopping && s.pendingEvents.isEmpty then setWorker s i .leaving
  else
    let now := s.clock + elapsed
    let scan := selectEvent options s.executingComponents now s.pendingEvents
    match scan.selected with
    | none => setWorker { s with clock := now } i (.stalled false)
    | some (index, event) =>
      setWorker { s with
        clock := now
        agedDispatches := if event.priority < scan.highestDeclared then s.agedDispatches + 1 else s.agedDispatches
        pendingEvents := s.pendingEvents.eraseIdx index
        queuedComponents := s.queuedComponents.filter fun c => c ≠ event.component
        executingComponents := event.component :: s.executingComponents
        activeEvents := s.activeEvents + 1
        log := .started event.component event.id :: s.log } i (.executing event)

/-- The section after `ExecuteNow`, up to the propagation. -/
def finish (s : State) (i : Nat) (event : Event) (status : Status) : State :=
  { s with
    lastStatus := if status.isOk then s.lastStatus else status
    dispatchedEvents := s.dispatchedEvents + 1
    activeEvents := s.activeEvents - 1
    executingComponents := s.executingComponents.filter fun c => c ≠ event.component
    workers := notifyAll (s.workers.set i .top)
    log := .finished event.component event.id :: s.log }

def complete (s : State) (i : Nat) (event : Event) (status : Status) (choices : List Choice) : State :=
  if status.isOk && !s.stopping then
    propagate (finish s i event status) (dependentsOf s.taskDependents event.component) choices
  else finish s i event status

/-! ## Start and Stop -/

def dataOps (name : Name) (trigger : TriggerSpec) : List InstallOp :=
  if trigger.kind = .data then
    .pushDataTrigger name trigger
      :: (List.range trigger.dataDependencies.length).flatMap fun topic => [.setDataCallback name topic, .pushReader name]
  else []

def serviceOps (name : Name) (trigger : TriggerSpec) : List InstallOp :=
  if trigger.kind = .service then
    trigger.serviceDependencies.flatMap fun _ =>
      [.setServiceCallback name (effectiveDeadline trigger) trigger.priority, .pushReader name]
  else []

def timerOps (name : Name) (trigger : TriggerSpec) : List InstallOp :=
  if trigger.kind = .periodic then [.spawnTimer ⟨name, effectiveDeadline trigger, trigger.priority⟩] else []

/-- Everything `Start` does between its first section and `finish_start`, in order. -/
def installPlan (options : SchedulerOptions) (components : List ScheduledComponent) : List InstallOp :=
  List.replicate options.workerCount .spawnWorker
    ++ components.flatMap (fun c => c.triggers.flatMap (dataOps c.name))
    ++ components.flatMap (fun c => c.triggers.flatMap (serviceOps c.name))
    ++ components.flatMap (fun c => c.triggers.flatMap (timerOps c.name))

def inProgress : Status := .error .failedPrecondition (text "scheduler lifecycle operation is in progress")

/-- The first section of `Start`: the status it returns at once, or the state it goes on from. -/
def startFirst (options : SchedulerOptions) (s : State) : Except Status State :=
  if s.starting || s.stopping then .error inProgress
  else if s.running then .error .ok
  else if !options.validate.isOk then .error options.validate
  else
    match installTaskTriggers (s.components.map fun c => (c.name, c.triggers)) with
    | .error status => .error status
    | .ok graph =>
      .ok { s with
        components := s.components.map fun c => { c with taskTriggers := graph.statesOf c.name }
        taskDependents := graph.dependents
        stopping := false
        starting := true
        running := true
        lastStatus := .ok
        start := .installing (installPlan options s.components)
        run := s.run + 1
        base := ⟨s.dispatchedEvents, s.coalescedEvents⟩
        log := [] }

def addDataTrigger (trigger : TriggerSpec) (c : ScheduledComponent) : ScheduledComponent :=
  { c with dataTriggers := c.dataTriggers ++ [.ofSpec trigger trigger.dataDependencies.length] }

def addReader (reader : Option Callback) (c : ScheduledComponent) : ScheduledComponent :=
  { c with dataTriggerReaders := c.dataTriggerReaders ++ reader.toList }

def pushTrigger (s : State) (name : Name) (trigger : TriggerSpec) : State :=
  { s with
    triggerIndex := ((findComponent s.components name).map fun c => c.dataTriggers.length).getD 0
    components := updateComponent s.components name (addDataTrigger trigger) }

def install (s : State) : InstallOp → State
  | .spawnWorker => { s with workers := s.workers ++ [.spawned] }
  | .pushDataTrigger name trigger => pushTrigger s name trigger
  | .setDataCallback name topic => { s with reader := some ⟨name, .data s.triggerIndex topic, s.run⟩ }
  | .setServiceCallback name deadline priority => { s with reader := some ⟨name, .service deadline priority, s.run⟩ }
  | .pushReader name =>
    { s with reader := none, components := updateComponent s.components name (addReader s.reader) }
  | .spawnTimer request => { s with timers := s.timers ++ [⟨request, .waiting⟩] }

/-- The first section of `Stop`, past its refusals. -/
def stopFirst (s : State) : State := { s with stopping := true, running := false, stop := .notifying }

/-- The last section of `Stop`; the threads have been joined. -/
def stopClear (s : State) : State :=
  { s with
    pendingEvents := []
    queuedComponents := []
    activeEvents := 0
    components := s.components.map fun c => { c with dataTriggerReaders := [], dataTriggers := [], taskTriggers := [] }
    taskDependents := []
    stopping := false
    workers := []
    timers := []
    stop := .idle
    start := if s.start = .failing then .finishing else s.start }

def joined (s : State) : Bool :=
  s.workers.all (fun pc => pc = .exited) && s.timers.all fun timer => timer.pc = .exited

/-- The readers that exist, each with its callback. -/
def readers (s : State) : List Callback := s.reader.toList ++ s.components.flatMap ScheduledComponent.dataTriggerReaders

/-! ## Moves -/

inductive Move where
  | register (name : Name) (triggers : List TriggerSpec)
  | start
  | install
  | installFails
  | finishStart
  | stop
  | stopFromStart
  | stopNotify
  | stopClear
  | trigger (name : Name)
  | enqueueCall (k : Nat) (choice : Choice)
  | copyCallback (k : Nat)
  | invokeCallback (k : Nat) (choice : Choice)
  | timerExpires (j : Nat)
  | timerStops (j : Nat)
  | timerEnqueues (j : Nat) (choice : Choice)
  | workerBegins (i : Nat)
  | workerDispatches (i : Nat) (elapsed : Nat)
  | workerRetries (i : Nat)
  | workerWakes (i : Nat)
  | workerCompletes (i : Nat) (status : Status) (choices : List Choice)
  | workerLeaves (i : Nat)
  deriving DecidableEq

def setTimer (s : State) (j : Nat) (timer : Timer) : State := { s with timers := s.timers.set j timer }

def stepTimer (s : State) (j : Nat) (f : Timer → Option State) : Option State := s.timers[j]?.bind f

def stepWorker (s : State) (i : Nat) (f : WorkerPc → Option State) : Option State := s.workers[i]?.bind f

def step (options : SchedulerOptions) (s : State) (move : Move) : Option State :=
  if s.terminated then none
  else
    match move with
    | .register name triggers =>
      if s.running || s.stopping || (findComponent s.components name).isSome then none
      else some { s with components := insertComponent s.components { name := name, triggers := triggers } }
    | .start =>
      match startFirst options s with
      | .ok t => some t
      | .error _ => none
    | .install =>
      match s.start with
      | .installing (op :: ops) => some { install s op with start := .installing ops }
      | _ => none
    | .installFails =>
      match s.start with
      | .installing (_ :: _) => some { s with start := .failing, reader := none }
      | _ => none
    | .finishStart =>
      match s.start with
      | .installing [] => some { s with start := .idle, starting := false }
      | .finishing => some { s with start := .idle, starting := false }
      | _ => none
    | .stop => if s.starting || s.stopping || !s.running then none else some (stopFirst s)
    | .stopFromStart =>
      if s.start = .failing then (if s.stopping || !s.running then none else some (stopFirst s)) else none
    | .stopNotify =>
      if s.stop = .notifying then some { s with workers := notifyAll s.workers, stop := .joining } else none
    | .stopClear => if s.stop = .joining && joined s then some (stopClear s) else none
    | .trigger name =>
      match findManual s name with
      | .ok request => some { s with calls := s.calls ++ [request] }
      | .error _ => none
    | .enqueueCall k choice =>
      s.calls[k]?.map fun request => (enqueue { s with calls := s.calls.eraseIdx k } request choice).1
    | .copyCallback k => (readers s)[k]?.map fun callback => { s with inFlight := s.inFlight ++ [callback] }
    | .invokeCallback k choice =>
      s.inFlight[k]?.map fun callback => invoke { s with inFlight := s.inFlight.eraseIdx k } callback choice
    | .timerExpires j => stepTimer s j fun timer =>
      if timer.pc = .waiting ∧ accepting s then some (setTimer s j { timer with pc := .due }) else none
    | .timerStops j => stepTimer s j fun timer =>
      if timer.pc = .waiting ∧ !accepting s then some (setTimer s j { timer with pc := .exited }) else none
    | .timerEnqueues j choice => stepTimer s j fun timer =>
      if timer.pc = .due then some (enqueue (setTimer s j { timer with pc := .waiting }) timer.request choice).1 else none
    | .workerBegins i => stepWorker s i fun pc => if pc = .spawned then some (setWorker s i .top) else none
    | .workerDispatches i elapsed => stepWorker s i fun pc =>
      if pc = .top ∨ pc = .waiting true then some (dispatch options s i elapsed) else none
    | .workerRetries i => stepWorker s i fun pc => if pc = .stalled true then some (setWorker s i .top) else none
    | .workerWakes i => stepWorker s i fun pc => if pc.blocked then some (setWorker s i pc.wake) else none
    | .workerCompletes i status choices => stepWorker s i fun pc =>
      match pc with
      | .executing event => some (complete s i event status choices)
      | _ => none
    | .workerLeaves i => stepWorker s i fun pc => if pc = .leaving then some (setWorker s i .exited) else none

/-! ## What a move can do -/

/-- The moves as a relation, one case for each way a move can go, with its guard. -/
inductive Transition (options : SchedulerOptions) (s : State) : Move → State → Prop
  | register (name : Name) (triggers : List TriggerSpec) (running : s.running = false) (stopping : s.stopping = false)
      (fresh : findComponent s.components name = none) :
      Transition options s (.register name triggers)
        { s with components := insertComponent s.components { name := name, triggers := triggers } }
  | start {t : State} (first : startFirst options s = .ok t) : Transition options s .start t
  | install {op : InstallOp} {ops : List InstallOp} (pc : s.start = .installing (op :: ops)) :
      Transition options s .install { install s op with start := .installing ops }
  | installFails {op : InstallOp} {ops : List InstallOp} (pc : s.start = .installing (op :: ops)) :
      Transition options s .installFails { s with start := .failing, reader := none }
  | finishStart (pc : s.start = .installing [] ∨ s.start = .finishing) :
      Transition options s .finishStart { s with start := .idle, starting := false }
  | stop (starting : s.starting = false) (stopping : s.stopping = false) (running : s.running = true) :
      Transition options s .stop (stopFirst s)
  | stopFromStart (pc : s.start = .failing) (stopping : s.stopping = false) (running : s.running = true) :
      Transition options s .stopFromStart (stopFirst s)
  | stopNotify (pc : s.stop = .notifying) :
      Transition options s .stopNotify { s with workers := notifyAll s.workers, stop := .joining }
  | stopClear (pc : s.stop = .joining) (joined : joined s = true) : Transition options s .stopClear (stopClear s)
  | trigger {name : Name} {request : Request} (found : findManual s name = .ok request) :
      Transition options s (.trigger name) { s with calls := s.calls ++ [request] }
  | enqueueCall {k : Nat} {request : Request} (choice : Choice) (call : s.calls[k]? = some request) :
      Transition options s (.enqueueCall k choice) (enqueue { s with calls := s.calls.eraseIdx k } request choice).1
  | copyCallback {k : Nat} {callback : Callback} (reader : (readers s)[k]? = some callback) :
      Transition options s (.copyCallback k) { s with inFlight := s.inFlight ++ [callback] }
  | invokeCallback {k : Nat} {callback : Callback} (choice : Choice) (copy : s.inFlight[k]? = some callback) :
      Transition options s (.invokeCallback k choice)
        (invoke { s with inFlight := s.inFlight.eraseIdx k } callback choice)
  | timerExpires {j : Nat} {timer : Timer} (thread : s.timers[j]? = some timer) (pc : timer.pc = .waiting)
      (on : accepting s = true) : Transition options s (.timerExpires j) (setTimer s j { timer with pc := .due })
  | timerStops {j : Nat} {timer : Timer} (thread : s.timers[j]? = some timer) (pc : timer.pc = .waiting)
      (off : accepting s = false) : Transition options s (.timerStops j) (setTimer s j { timer with pc := .exited })
  | timerEnqueues {j : Nat} {timer : Timer} (choice : Choice) (thread : s.timers[j]? = some timer)
      (pc : timer.pc = .due) :
      Transition options s (.timerEnqueues j choice)
        (enqueue (setTimer s j { timer with pc := .waiting }) timer.request choice).1
  | workerBegins {i : Nat} (thread : s.workers[i]? = some .spawned) :
      Transition options s (.workerBegins i) (setWorker s i .top)
  | workerDispatches {i : Nat} {pc : WorkerPc} (elapsed : Nat) (thread : s.workers[i]? = some pc)
      (at_ : pc = .top ∨ pc = .waiting true) :
      Transition options s (.workerDispatches i elapsed) (dispatch options s i elapsed)
  | workerRetries {i : Nat} (thread : s.workers[i]? = some (.stalled true)) :
      Transition options s (.workerRetries i) (setWorker s i .top)
  | workerWakes {i : Nat} {pc : WorkerPc} (thread : s.workers[i]? = some pc) (blocked : pc.blocked = true) :
      Transition options s (.workerWakes i) (setWorker s i pc.wake)
  | workerCompletes {i : Nat} {event : Event} (status : Status) (choices : List Choice)
      (thread : s.workers[i]? = some (.executing event)) :
      Transition options s (.workerCompletes i status choices) (complete s i event status choices)
  | workerLeaves {i : Nat} (thread : s.workers[i]? = some .leaving) :
      Transition options s (.workerLeaves i) (setWorker s i .exited)

/-- The first section of `Start` goes on only from a stopped scheduler, with valid options and tasks. -/
theorem startFirst_ok {options : SchedulerOptions} {s t : State} (h : startFirst options s = .ok t) :
    s.starting = false ∧ s.stopping = false ∧ s.running = false ∧ options.validate.isOk = true
      ∧ ∃ graph, installTaskTriggers (s.components.map fun c => (c.name, c.triggers)) = .ok graph
        ∧ t = { s with
          components := s.components.map fun c => { c with taskTriggers := graph.statesOf c.name }
          taskDependents := graph.dependents
          stopping := false
          starting := true
          running := true
          lastStatus := .ok
          start := .installing (installPlan options s.components)
          run := s.run + 1
          base := ⟨s.dispatchedEvents, s.coalescedEvents⟩
          log := [] } := by
  unfold startFirst at h
  split at h
  · cases h
  · rename_i hflags
    split at h
    · cases h
    · rename_i hrunning
      split at h
      · cases h
      · rename_i hvalid
        split at h
        · cases h
        · rename_i graph hgraph
          simp only [Bool.or_eq_true, not_or, Bool.not_eq_true] at hflags
          exact ⟨hflags.1, hflags.2, by simpa using hrunning, by simpa using hvalid, graph, hgraph,
            (Except.ok.inj h).symm⟩

theorem stepTimer_some {s t : State} {j : Nat} {f : Timer → Option State} (h : stepTimer s j f = some t) :
    ∃ timer, s.timers[j]? = some timer ∧ f timer = some t :=
  Option.bind_eq_some_iff.mp h

theorem stepWorker_some {s t : State} {i : Nat} {f : WorkerPc → Option State} (h : stepWorker s i f = some t) :
    ∃ pc, s.workers[i]? = some pc ∧ f pc = some t :=
  Option.bind_eq_some_iff.mp h

theorem ite_some {σ : Type} {c : Prop} [Decidable c] {x y : σ} (h : (if c then some x else none) = some y) :
    c ∧ x = y := by
  split at h
  · rename_i hc
    exact ⟨hc, Option.some.inj h⟩
  · cases h

theorem transition_of_step {options : SchedulerOptions} {s t : State} {move : Move}
    (h : step options s move = some t) : Transition options s move t := by
  unfold step at h
  split at h
  · cases h
  cases move with
  | register name triggers =>
    simp only at h
    split at h
    · cases h
    · rename_i hc
      cases h
      simp only [Bool.or_eq_true, not_or, Bool.not_eq_true, Option.isSome_eq_false_iff, Option.isNone_iff_eq_none] at hc
      exact .register name triggers hc.1.1 hc.1.2 hc.2
  | start =>
    simp only at h
    split at h
    · rename_i hfirst
      cases h
      exact .start hfirst
    · cases h
  | install =>
    simp only at h
    split at h
    · rename_i hpc
      cases h
      exact .install hpc
    · cases h
  | installFails =>
    simp only at h
    split at h
    · rename_i hpc
      cases h
      exact .installFails hpc
    · cases h
  | finishStart =>
    simp only at h
    split at h
    · rename_i hpc
      cases h
      exact .finishStart (.inl hpc)
    · rename_i hpc
      cases h
      exact .finishStart (.inr hpc)
    · cases h
  | stop =>
    simp only at h
    split at h
    · cases h
    · rename_i hc
      cases h
      simp only [Bool.or_eq_true, not_or, Bool.not_eq_true, Bool.not_eq_true', Bool.not_eq_false] at hc
      exact .stop hc.1.1 hc.1.2 hc.2
  | stopFromStart =>
    simp only at h
    split at h
    · rename_i hpc
      split at h
      · cases h
      · rename_i hc
        cases h
        simp only [Bool.or_eq_true, not_or, Bool.not_eq_true, Bool.not_eq_true', Bool.not_eq_false] at hc
        exact .stopFromStart hpc hc.1 hc.2
    · cases h
  | stopNotify =>
    obtain ⟨hpc, rfl⟩ := ite_some h
    exact .stopNotify hpc
  | stopClear =>
    obtain ⟨hc, rfl⟩ := ite_some h
    simp only [Bool.and_eq_true, decide_eq_true_eq] at hc
    exact .stopClear hc.1 hc.2
  | trigger name =>
    simp only at h
    split at h
    · rename_i hfound
      cases h
      exact .trigger hfound
    · cases h
  | enqueueCall k choice =>
    obtain ⟨request, hcall, rfl⟩ := Option.map_eq_some_iff.mp h
    exact .enqueueCall choice hcall
  | copyCallback k =>
    obtain ⟨callback, hreader, rfl⟩ := Option.map_eq_some_iff.mp h
    exact .copyCallback hreader
  | invokeCallback k choice =>
    obtain ⟨callback, hcopy, rfl⟩ := Option.map_eq_some_iff.mp h
    exact .invokeCallback choice hcopy
  | timerExpires j =>
    obtain ⟨timer, hthread, h⟩ := stepTimer_some h
    obtain ⟨⟨hpc, hon⟩, rfl⟩ := ite_some h
    exact .timerExpires hthread hpc hon
  | timerStops j =>
    obtain ⟨timer, hthread, h⟩ := stepTimer_some h
    obtain ⟨⟨hpc, hoff⟩, rfl⟩ := ite_some h
    exact .timerStops hthread hpc (by simpa using hoff)
  | timerEnqueues j choice =>
    obtain ⟨timer, hthread, h⟩ := stepTimer_some h
    obtain ⟨hpc, rfl⟩ := ite_some h
    exact .timerEnqueues choice hthread hpc
  | workerBegins i =>
    obtain ⟨pc, hthread, h⟩ := stepWorker_some h
    obtain ⟨rfl, rfl⟩ := ite_some h
    exact .workerBegins hthread
  | workerDispatches i elapsed =>
    obtain ⟨pc, hthread, h⟩ := stepWorker_some h
    obtain ⟨hat, rfl⟩ := ite_some h
    exact .workerDispatches elapsed hthread hat
  | workerRetries i =>
    obtain ⟨pc, hthread, h⟩ := stepWorker_some h
    obtain ⟨rfl, rfl⟩ := ite_some h
    exact .workerRetries hthread
  | workerWakes i =>
    obtain ⟨pc, hthread, h⟩ := stepWorker_some h
    obtain ⟨hblocked, rfl⟩ := ite_some h
    exact .workerWakes hthread hblocked
  | workerCompletes i status choices =>
    obtain ⟨pc, hthread, h⟩ := stepWorker_some h
    split at h
    · cases h
      exact .workerCompletes status choices hthread
    · cases h
  | workerLeaves i =>
    obtain ⟨pc, hthread, h⟩ := stepWorker_some h
    obtain ⟨rfl, rfl⟩ := ite_some h
    exact .workerLeaves hthread

end PuppetMaster.Scheduler
