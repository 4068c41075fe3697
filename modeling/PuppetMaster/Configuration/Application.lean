/-
  PuppetMaster.Configuration.Application — `Application::Start` and `Application::Stop`.

  One thread is in `Start`, another in `Stop`, and the workers of the scheduler execute
  components. A move is the next step of one of the two threads, or one end of an `Execute`;
  the steps of a thread are its sections of the application's mutex (where it reads and
  writes `phase`), and the calls between them. `answer` is what the thing called gives back:
  a component's callback, `Scheduler::Start`, `Scheduler::Stop` or `RuntimeContext::Close`.
  `Stop` may be called again.

  `Scheduler::Start` starts the workers before it can fail and joins them when it does.
  `Scheduler::Stop` refuses on a thread of the scheduler, and else drains: it returns when
  no `Execute` is under way.

  Next to `first`, the error that teardown and `Stop` keep, stands `failures`, every error
  they met.
-/

import PuppetMaster.Configuration.Checked
import PuppetMaster.Runtime.Lifecycle

namespace PuppetMaster.Configuration

open PuppetMaster.Core PuppetMaster.Scheduler
open PuppetMaster.Runtime (RuntimeContext Call ComponentState)

/-- What `Application::Create` accepts. -/
structure Application where
  project : ProjectConfig
  valid : project.validate = .ok ()

namespace Application

def components (app : Application) : List Name := app.project.components.map (·.name)

theorem components_nodup (app : Application) : app.components.Nodup := (checked_of_validate app.valid).names

def componentError (name : Name) (step : String) (status : Status) : Status :=
  .error status.code (text "component " ++ name ++ text ": " ++ text step ++ text " failed: " ++ status.message)

/-! ## Teardown -/

/-- `looking` and `lookingAgain` read the component's state; `inStop` and `inShutdown` are in its callbacks. -/
inductive TearPc where
  | looking
  | stopping
  | inStop
  | lookingAgain
  | shuttingDown
  | inShutdown
  deriving DecidableEq, Repr

/-- `TearDownComponents`: `index` components are left. -/
structure TearDown where
  index : Nat
  pc : TearPc
  first : Status
  failures : List Status
  deriving DecidableEq

namespace TearDown

def entry (count : Nat) : TearDown := ⟨count, .looking, .ok, []⟩

def record (t : TearDown) (name : Name) (step : String) (status : Status) : TearDown :=
  if status.isOk then t
  else
    { t with
      first := if t.first.isOk then componentError name step status else t.first
      failures := t.failures ++ [componentError name step status] }

def goto (t : TearDown) (pc : TearPc) : TearDown := { t with pc := pc }

def next (t : TearDown) : TearDown := { t with index := t.index - 1, pc := .looking }

/-- One step of the loop's body, for component `name`. -/
def step (t : TearDown) (runtime : RuntimeContext) (name : Name) (answer : Status) : RuntimeContext × TearDown :=
  match t.pc with
  | .looking =>
    match runtime.getComponentState name with
    | .error status => (runtime, (t.record name "stop" status).next)
    | .ok .started => (runtime, t.goto .stopping)
    | .ok .shutdown => (runtime, t.next)
    | .ok _ => (runtime, t.goto .shuttingDown)
  | .stopping =>
    match runtime.stopComponent name with
    | .error status => (runtime, (t.record name "stop" status).goto .lookingAgain)
    | .ok runtime => (runtime, t.goto .inStop)
  | .inStop => (runtime.componentStopped name answer, (t.record name "stop" answer).goto .lookingAgain)
  | .lookingAgain =>
    match runtime.getComponentState name with
    | .error _ => (runtime, t.next)
    | .ok .shutdown => (runtime, t.next)
    | .ok _ => (runtime, t.goto .shuttingDown)
  | .shuttingDown =>
    match runtime.shutdownComponent name with
    | .error status => (runtime, (t.record name "shutdown" status).next)
    | .ok runtime => (runtime, t.goto .inShutdown)
  | .inShutdown => (runtime.componentShutDown name answer, (t.record name "shutdown" answer).next)

end TearDown

/-! ## The state -/

inductive Phase where
  | created
  | running
  | stopped
  deriving DecidableEq, Repr

/-- `starting` and `running`: `is_running`. The workers are there in all states but `idle`. -/
inductive SchedulerState where
  | idle
  | starting
  | running
  | draining
  deriving DecidableEq, Repr

def SchedulerState.isRunning : SchedulerState → Bool
  | .starting | .running => true
  | .idle | .draining => false

/-- The steps of the loop in `Start`. -/
inductive BringUp where
  | configure
  | init
  | start
  deriving DecidableEq, Repr

namespace BringUp

def label : BringUp → String
  | .configure => "configure"
  | .init => "initialize"
  | .start => "start"

def call : BringUp → RuntimeContext → Name → Result RuntimeContext
  | .configure => RuntimeContext.configureComponent
  | .init => RuntimeContext.initializeComponent
  | .start => RuntimeContext.startComponent

def finish : BringUp → RuntimeContext → Name → Status → RuntimeContext
  | .configure => RuntimeContext.componentConfigured
  | .init => RuntimeContext.componentInitialized
  | .start => RuntimeContext.componentStarted

def next (index : Nat) : BringUp → Nat × BringUp
  | .configure => (index, .init)
  | .init => (index, .start)
  | .start => (index + 1, .configure)

end BringUp

/-- `failing` and `succeeding` are before the last write of `phase`. -/
inductive StartPc where
  | idle
  | calling (index : Nat) (step : BringUp)
  | inCallback (index : Nat) (step : BringUp)
  | schedulerStarting
  | tearingDown (failure : Status) (t : TearDown)
  | failing (failure : Status)
  | succeeding
  | returned (status : Status)
  deriving DecidableEq

inductive StopPc where
  | idle
  | stoppingScheduler
  | draining
  | tearingDown (first : Status) (failures : List Status) (t : TearDown)
  | closing (first : Status) (failures : List Status)
  | returned (status : Status) (failures : List Status)
  deriving DecidableEq

structure State where
  phase : Phase
  runtime : RuntimeContext
  scheduler : SchedulerState
  start : StartPc
  stop : StopPc

def initial (app : Application) : State where
  phase := .created
  runtime := .registered app.components
  scheduler := .idle
  start := .idle
  stop := .idle

/-! ## Start -/

def alreadyStopped : Status :=
  .error .failedPrecondition (text "application already stopped; create a new one to run again")

def startStep (app : Application) (s : State) (answer : Status) : Option State :=
  match s.start with
  | .idle =>
    match s.phase with
    | .running => some { s with start := .returned .ok }
    | .stopped => some { s with start := .returned alreadyStopped }
    | .created => some { s with start := .calling 0 .configure }
  | .calling index step =>
    match app.components[index]? with
    | none => some { s with scheduler := .starting, start := .schedulerStarting }
    | some name =>
      match step.call s.runtime name with
      | .ok runtime => some { s with runtime := runtime, start := .inCallback index step }
      | .error status =>
        some { s with start := .tearingDown (componentError name step.label status) (.entry (index + 1)) }
  | .inCallback index step =>
    match app.components[index]? with
    | none => none
    | some name =>
      let runtime := step.finish s.runtime name answer
      if answer.isOk then some { s with runtime := runtime, start := .calling (step.next index).1 (step.next index).2 }
      else
        some { s with
          runtime := runtime
          start := .tearingDown (componentError name step.label answer) (.entry (index + 1)) }
  | .schedulerStarting =>
    if answer.isOk then some { s with scheduler := .running, start := .succeeding }
    else if s.runtime.executing = [] then
      some { s with
        scheduler := .idle
        start := .tearingDown (.error answer.code (text "scheduler start failed: " ++ answer.message))
          (.entry app.components.length) }
    else none
  | .tearingDown failure t =>
    match t.index with
    | 0 => some { s with start := .failing failure }
    | k + 1 =>
      match app.components[k]? with
      | none => none
      | some name =>
        let stepped := t.step s.runtime name answer
        some { s with runtime := stepped.1, start := .tearingDown failure stepped.2 }
  | .failing failure => some { s with phase := .stopped, start := .returned failure }
  | .succeeding => some { s with phase := .running, start := .returned .ok }
  | .returned _ => none

/-! ## Stop -/

/-- The first section of `Stop`. -/
def stopEnters (s : State) : State :=
  match s.phase with
  | .running => { s with phase := .stopped, stop := .stoppingScheduler }
  | .created | .stopped => { s with phase := .stopped, stop := .returned .ok [] }

def stopStep (app : Application) (s : State) (answer : Status) : Option State :=
  match s.stop with
  | .idle | .returned _ _ => some (stopEnters s)
  | .stoppingScheduler =>
    if answer.isOk then
      match s.scheduler with
      | .idle => some { s with stop := .tearingDown .ok [] (.entry app.components.length) }
      | .starting => none
      | .running | .draining => some { s with scheduler := .draining, stop := .draining }
    else
      let failure := Status.error answer.code (text "scheduler stop failed: " ++ answer.message)
      some { s with stop := .tearingDown failure [failure] (.entry app.components.length) }
  | .draining =>
    if s.runtime.executing = [] then
      some { s with scheduler := .idle, stop := .tearingDown .ok [] (.entry app.components.length) }
    else none
  | .tearingDown first failures t =>
    match t.index with
    | 0 => some { s with stop := .closing (if first.isOk then t.first else first) (failures ++ t.failures) }
    | k + 1 =>
      match app.components[k]? with
      | none => none
      | some name =>
        let stepped := t.step s.runtime name answer
        some { s with runtime := stepped.1, stop := .tearingDown first failures stepped.2 }
  | .closing first failures =>
    if answer.isOk then some { s with stop := .returned first failures }
    else
      let failure := Status.error answer.code (text "closing transports failed: " ++ answer.message)
      some { s with stop := .returned (if first.isOk then failure else first) (failures ++ [failure]) }

/-! ## Moves -/

inductive Move where
  | start (answer : Status)
  | stop (answer : Status)
  | execute (name : Name)
  | executed (name : Name) (answer : Status)

def step (app : Application) (s : State) : Move → Option State
  | .start answer => startStep app s answer
  | .stop answer => stopStep app s answer
  | .execute name =>
    if s.scheduler = .idle then none
    else
      match s.runtime.executeComponent name with
      | .ok runtime => some { s with runtime := runtime }
      | .error _ => some s
  | .executed name answer =>
    if name ∈ s.runtime.executing then some { s with runtime := s.runtime.componentExecuted name answer } else none

end Application

end PuppetMaster.Configuration
