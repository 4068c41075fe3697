/-
  PuppetMaster.Runtime.Lifecycle — the lifecycle operations of `RuntimeContext`.

  Each operation looks the component up, refuses it in a state it is not meant for, calls
  one callback and writes the state the callback's answer leads to. The check and the write
  are two sections of the runtime's mutex with the callback between them, and a worker of
  the scheduler can be inside `Execute` at the same time: an operation is `begin` (up to
  the callback) and `finish` (from its answer on). `calls` is the history of the callbacks,
  each with the state its component was in; `executing` are the `Execute` callbacks that
  have not returned.

  The instances and their states are two maps of the source with the same keys;
  `states` is both.
-/

import Mathlib.Logic.Function.Basic
import PuppetMaster.Scheduler.Trigger

namespace PuppetMaster.Runtime

open PuppetMaster.Core PuppetMaster.Scheduler

inductive ComponentState where
  | created
  | configured
  | initialized
  | started
  | stopped
  | shutdown
  | error
  deriving DecidableEq, Repr

def ComponentState.toString : ComponentState → String
  | .created => "created"
  | .configured => "configured"
  | .initialized => "initialized"
  | .started => "started"
  | .stopped => "stopped"
  | .shutdown => "shutdown"
  | .error => "error"

inductive Callback where
  | configure
  | init
  | start
  | execute
  | stop
  | shutdown
  deriving DecidableEq, Repr

structure Call where
  callback : Callback
  component : Name
  state : ComponentState
  deriving DecidableEq, Repr

structure RuntimeContext where
  states : Name → Option ComponentState
  calls : List Call
  executing : List Name

def invalidTransition (name : Name) (operation : String) (state : ComponentState) : Status :=
  .error .failedPrecondition
    (text "cannot " ++ text operation ++ text " component " ++ name ++ text " from state " ++ text state.toString)

namespace RuntimeContext

/-- The context after `RegisterComponentInstance` of every one of `names`. -/
def registered (names : List Name) : RuntimeContext where
  states name := if name ∈ names then some .created else none
  calls := []
  executing := []

def getComponentState (runtime : RuntimeContext) (name : Name) : Result ComponentState :=
  match runtime.states name with
  | some state => .ok state
  | none => .error (.error .notFound (text "component state is not registered: " ++ name))

def setComponentState (runtime : RuntimeContext) (name : Name) (state : ComponentState) : RuntimeContext :=
  if (runtime.states name).isSome then { runtime with states := Function.update runtime.states name (some state) }
  else runtime

/-- An operation up to its callback. -/
def begin (operation : String) (callback : Callback) (allowed : List ComponentState) (runtime : RuntimeContext)
    (name : Name) : Result RuntimeContext :=
  match runtime.states name with
  | none => .error (.error .notFound (text "component instance is not registered: " ++ name))
  | some state =>
    if state ∈ allowed then .ok { runtime with calls := runtime.calls ++ [⟨callback, name, state⟩] }
    else .error (invalidTransition name operation state)

/-- The rest of an operation, from its callback's answer. -/
def finish (next : ComponentState) (runtime : RuntimeContext) (name : Name) (answer : Status) : RuntimeContext :=
  runtime.setComponentState name (if answer.isOk then next else .error)

def configureComponent := begin "configure" .configure [.created, .stopped]

def initializeComponent := begin "initialize" .init [.configured]

def startComponent := begin "start" .start [.initialized, .stopped]

def stopComponent := begin "stop" .stop [.started]

def shutdownComponent := begin "shutdown" .shutdown [.created, .configured, .initialized, .stopped, .error]

def componentConfigured := finish .configured

def componentInitialized := finish .initialized

def componentStarted := finish .started

def componentStopped := finish .stopped

def componentShutDown := finish .shutdown

/-- `ExecuteComponent` up to the callback, on a worker of the scheduler. -/
def executeComponent (runtime : RuntimeContext) (name : Name) : Result RuntimeContext :=
  (begin "execute" .execute [.started] runtime name).map fun runtime =>
    { runtime with executing := name :: runtime.executing }

/-- `ExecuteComponent` from the answer on: only a failure changes the state. -/
def componentExecuted (runtime : RuntimeContext) (name : Name) (answer : Status) : RuntimeContext :=
  let returned := { runtime with executing := runtime.executing.erase name }
  if answer.isOk then returned else returned.setComponentState name .error

/-! ## What the operations change -/

variable {runtime runtime' : RuntimeContext} {name other : Name} {state : ComponentState} {answer : Status}

theorem begin_ok {operation : String} {callback : Callback} {allowed : List ComponentState}
    (h : begin operation callback allowed runtime name = .ok runtime') :
    ∃ state ∈ allowed, runtime.states name = some state
      ∧ runtime' = { runtime with calls := runtime.calls ++ [⟨callback, name, state⟩] } := by
  unfold begin at h
  split at h
  · cases h
  · rename_i state hstate
    split at h
    · rename_i hallowed
      exact ⟨state, hallowed, hstate, (Except.ok.inj h).symm⟩
    · cases h

/-- A registered component in an allowed state is not refused. -/
theorem begin_of_allowed {operation : String} {callback : Callback} {allowed : List ComponentState}
    (hstate : runtime.states name = some state) (hallowed : state ∈ allowed) :
    begin operation callback allowed runtime name
      = .ok { runtime with calls := runtime.calls ++ [⟨callback, name, state⟩] } := by
  unfold begin
  simp only [hstate, if_pos hallowed]

@[simp] theorem setComponentState_calls : (runtime.setComponentState name state).calls = runtime.calls := by
  unfold setComponentState
  split <;> rfl

@[simp] theorem setComponentState_executing : (runtime.setComponentState name state).executing = runtime.executing := by
  unfold setComponentState
  split <;> rfl

theorem setComponentState_self (h : (runtime.states name).isSome = true) :
    (runtime.setComponentState name state).states name = some state := by
  unfold setComponentState
  rw [if_pos h]
  exact Function.update_self _ _ _

theorem setComponentState_other (h : other ≠ name) :
    (runtime.setComponentState name state).states other = runtime.states other := by
  unfold setComponentState
  split
  · exact Function.update_of_ne h _ _
  · rfl

/-- Whatever is written to `name`, a component's state is the old one or the written one. -/
theorem setComponentState_cases :
    (runtime.setComponentState name state).states other = runtime.states other
      ∨ other = name ∧ (runtime.states other).isSome = true
        ∧ (runtime.setComponentState name state).states other = some state := by
  by_cases hne : other = name
  · subst hne
    by_cases hsome : (runtime.states other).isSome = true
    · exact .inr ⟨rfl, hsome, setComponentState_self hsome⟩
    · unfold setComponentState
      rw [if_neg hsome]
      exact .inl rfl
  · exact .inl (setComponentState_other hne)

end RuntimeContext

end PuppetMaster.Runtime
