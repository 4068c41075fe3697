/-
  PuppetMaster.Service.ScheduledServer — a `kCaller` server whose component the scheduler
  runs when a request arrives.

  Two readers stand on the request topic. The server's own (`requests`) was created when
  the component was initialized and holds the requests; `InstallServiceTriggers` creates
  the other one inside `Start` (`createReader`) and sets its callback (the `install` of
  that step), and `Stop` drops it. `Execute` is a call of `ServePending(0)`: it counts what
  is queued (`enter`), takes at most that many requests (`read`) and returns. A component
  whose `Execute` has failed is in the error state, and the runtime executes it no more
  (`started`).

  A publish takes the readers there are (`publish`; `saw` is the run whose trigger reader
  is among them), puts the request into the server's reader, which is the older one
  (`deliver`), and then has the trigger's reader call a copy of its callback (`notify`).
  Through shared memory the first two are one step, the commit of a slot, and the
  dispatcher makes one call for all the publishes it finds (`absorb`).

  The scheduler is `Scheduler.Machine`, with every move it has. `installed` numbers the
  callbacks that `Start` has set for the component's services; the one of this service is
  number `Setup.index`. The server is not closed: that comes after `Stop`.
-/

import PuppetMaster.InMemory.Mailbox
import PuppetMaster.Scheduler.Carried
import PuppetMaster.Scheduler.Register

namespace PuppetMaster.Service.ScheduledServer

open PuppetMaster.Core PuppetMaster.Lib PuppetMaster.Service
open PuppetMaster.InMemory (Mailbox)
open PuppetMaster.Scheduler (Name Callback InstallOp SchedulerOptions TriggerSpec serviceClaims)

/-! ## The state -/

/-- A component with a service trigger, and the service of one of its servers. -/
structure Setup where
  options : SchedulerOptions
  component : Name
  triggers : List TriggerSpec
  service : ServiceDeclaration
  resolved : (endpointsFor service).isOk = true
  triggered : service.name ∈ serviceClaims triggers

/-- The policy of the request endpoint, with which `Server::Create` made its reader. -/
def Setup.requestPolicy (setup : Setup) : MessagePolicy :=
  match endpointsFor setup.service with
  | .ok endpoints => endpoints.request.topic.messagePolicy
  | .error _ => {}

/-- Which of the component's service callbacks is this service's. -/
def Setup.index (setup : Setup) : Nat := (serviceClaims setup.triggers).idxOf setup.service.name

/-- The trigger's reader of one run of the scheduler. -/
structure TriggerReader where
  run : Nat
  callback : Option Callback
  deriving DecidableEq, Repr

structure Publish where
  request : Message
  saw : Option Nat
  delivered : Bool
  deriving DecidableEq, Repr

/-- `entering`: before `ServePending` counts. `returned`: before the worker's next section. -/
inductive ServePc where
  | idle
  | entering
  | serving (budget : Nat)
  | returned
  deriving DecidableEq, Repr

structure State where
  scheduler : Scheduler.State
  requests : Mailbox
  reader : Option TriggerReader
  installed : Nat
  publishes : List Publish
  serve : ServePc
  started : Bool
  deriving DecidableEq

/-- The server exists, the component is registered, and `Start` has not been called. -/
def initial (setup : Setup) (clock : Int) : State where
  scheduler := { Scheduler.initial clock with components := [{ name := setup.component, triggers := setup.triggers }] }
  requests := .fresh setup.requestPolicy
  reader := none
  installed := 0
  publishes := []
  serve := .idle
  started := true

def IsInitial (setup : Setup) (s : State) : Prop := ∃ clock, s = initial setup clock

/-! ## The scheduler's moves -/

/-- Deadline and priority, when `Start` is about to set a service callback of the component. -/
def nextService (setup : Setup) (s : State) : Option (Int × Int) :=
  match s.scheduler.start with
  | .installing (.setServiceCallback name deadline priority :: _) =>
    if name = setup.component then some (deadline, priority) else none
  | _ => none

/-- `Start` is about to set the callback of this service's trigger reader. -/
def setsCallback (setup : Setup) (s : State) : Bool :=
  (nextService setup s).isSome && decide (s.installed = setup.index)

/-- The trigger reader is a local of `InstallServiceTriggers`: it is not pushed yet. -/
def inHand (setup : Setup) (s : State) : Bool :=
  decide (s.installed ≤ setup.index) || (decide (s.installed = setup.index + 1) && s.scheduler.reader.isSome)

def readerAfter (setup : Setup) (s : State) : Scheduler.Move → Option TriggerReader
  | .install =>
    match nextService setup s with
    | none => s.reader
    | some (deadline, priority) =>
      if s.installed = setup.index then
        s.reader.map fun reader =>
          { reader with callback := some ⟨setup.component, .service deadline priority, s.scheduler.run⟩ }
      else s.reader
  | .installFails => if inHand setup s then none else s.reader
  | .stopClear => none
  | _ => s.reader

def installedAfter (setup : Setup) (s : State) : Scheduler.Move → Nat
  | .start => 0
  | .install => if (nextService setup s).isSome then s.installed + 1 else s.installed
  | _ => s.installed

/-- `ExecuteComponent`: only a started component's `Execute` is called. -/
def serveAfter (setup : Setup) (s : State) (t : Scheduler.State) : ServePc :=
  if setup.component ∈ t.executingComponents then
    if setup.component ∈ s.scheduler.executingComponents then s.serve
    else if s.started then .entering
    else .returned
  else .idle

def startedAfter (setup : Setup) (s : State) (t : Scheduler.State) : Scheduler.Move → Bool
  | .workerCompletes _ status _ =>
    if setup.component ∈ s.scheduler.executingComponents ∧ setup.component ∉ t.executingComponents then
      s.started && status.isOk
    else s.started
  | _ => s.started

/-- The callback is set on a reader; an execution ends once `Execute` has returned. -/
def enabled (setup : Setup) (s : State) : Scheduler.Move → Bool
  | .install => !setsCallback setup s || s.reader.isSome
  | .workerCompletes i _ _ =>
    match s.scheduler.workers[i]? with
    | some (.executing event) => decide (event.component ≠ setup.component) || decide (s.serve = .returned)
    | _ => true
  | _ => true

def schedulerStep (setup : Setup) (s : State) (move : Scheduler.Move) : Option State :=
  if enabled setup s move then
    (Scheduler.step setup.options s.scheduler move).map fun t =>
      { s with
        scheduler := t
        reader := readerAfter setup s move
        installed := installedAfter setup s move
        serve := serveAfter setup s t
        started := startedAfter setup s t move }
  else none

/-! ## Moves -/

inductive Move where
  | scheduler (move : Scheduler.Move)
  | createReader
  | publish (request : Message)
  | deliver (k : Nat)
  | notify (k : Nat)
  | absorb (k j : Nat)
  | enter (counted : Bool)
  | read
  | leave
  deriving DecidableEq

/-- The copies of the callback that a publish makes: none when its trigger reader is gone or has no callback. -/
def copies (s : State) (publish : Publish) : List Callback :=
  match s.reader with
  | some reader => if publish.saw = some reader.run then reader.callback.toList else []
  | none => []

def step (setup : Setup) (s : State) : Move → Option State
  | .scheduler move => schedulerStep setup s move
  | .createReader =>
    if setsCallback setup s && s.reader.isNone then some { s with reader := some ⟨s.scheduler.run, none⟩ } else none
  | .publish request =>
    some { s with publishes := s.publishes ++ [⟨request, s.reader.map TriggerReader.run, false⟩] }
  | .deliver k =>
    match s.publishes[k]? with
    | none => none
    | some p =>
      if p.delivered then none
      else
        (s.requests.push p.request false).map fun pushed =>
          { s with requests := pushed.2, publishes := s.publishes.set k { p with delivered := true } }
  | .notify k =>
    match s.publishes[k]? with
    | none => none
    | some p =>
      if p.delivered then
        some { s with
          publishes := s.publishes.eraseIdx k
          scheduler := { s.scheduler with inFlight := s.scheduler.inFlight ++ copies s p } }
      else none
  | .absorb k j =>
    match s.publishes[k]?, s.publishes[j]? with
    | some p, some q =>
      if k ≠ j ∧ p.delivered ∧ q.delivered ∧ p.saw = q.saw then some { s with publishes := s.publishes.eraseIdx k }
      else none
    | _, _ => none
  | .enter counted =>
    if s.serve = .entering then
      some { s with serve := .serving (if counted then s.requests.messages.length else setup.service.queueDepth) }
    else none
  | .read =>
    match s.serve with
    | .serving (budget + 1) =>
      match s.requests.read with
      | (.ok _, requests) => some { s with requests := requests, serve := .serving budget }
      | (.error _, _) => some { s with serve := .returned }
    | _ => none
  | .leave => if s.serve = .serving 0 then some { s with serve := .returned } else none

/-! ## Stranded requests -/

/-- A notification for a request that is held: a publish about to call the trigger reader, or a copied callback. -/
def Notified (setup : Setup) (s : State) : Prop :=
  (∃ p ∈ s.publishes, p.delivered = true ∧ p.saw = some s.scheduler.run) ∨
    ∃ callback ∈ s.scheduler.inFlight, callback.component = setup.component ∧ callback.target.isService = true

instance (setup : Setup) (s : State) : Decidable (Notified setup s) :=
  inferInstanceAs (Decidable (_ ∨ _))

/--
The scheduler runs, and the server holds a request that nothing is on the way to serve,
although its component would serve it.
-/
def Stranded (setup : Setup) (s : State) : Prop :=
  s.scheduler.running = true ∧ s.scheduler.starting = false ∧ s.scheduler.stopping = false ∧ s.started = true
    ∧ s.requests.messages ≠ []
    ∧ setup.component ∉ s.scheduler.queuedComponents ∧ setup.component ∉ s.scheduler.executingComponents
    ∧ ¬ Notified setup s

instance (setup : Setup) (s : State) : Decidable (Stranded setup s) :=
  inferInstanceAs (Decidable (_ ∧ _))

/-- An execution that is queued or under way takes every request the server holds. -/
def Awaited (setup : Setup) (s : State) : Prop :=
  s.requests.messages = [] ∨ setup.component ∈ s.scheduler.queuedComponents ∨ s.serve = .entering
    ∨ ∃ budget, s.serve = .serving budget ∧ s.requests.messages.length ≤ budget

/--
When `Start` sets the callback, no request waits that nothing is on the way to serve, and
every publish that has still to reach the server's reader saw the trigger's reader.
-/
def noneMissed (setup : Setup) (s : State) (move : Move) : Prop :=
  move = .scheduler .install → setsCallback setup s = true → s.started = true →
    (Awaited setup s ∨ Notified setup s)
      ∧ ∀ p ∈ s.publishes, p.delivered = false → p.saw = some s.scheduler.run

end PuppetMaster.Service.ScheduledServer
