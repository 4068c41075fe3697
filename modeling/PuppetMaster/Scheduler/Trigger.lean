/-
  PuppetMaster.Scheduler.Trigger — trigger declarations and readiness.

  `TriggerSpec` is the declaration, `SchedulerOptions` the scheduler's own settings, and
  `TriggerState` what a running scheduler keeps for one data or task-dependency trigger
  (the source has two structs with the same fields). `TriggerState.notify` is the step
  both `OnDataAvailable` and the completion of an upstream make.
-/

import PuppetMaster.Core.Status

namespace PuppetMaster.Scheduler

open PuppetMaster.Core

/-- A component, topic, task or service name: the string the maps are keyed by. -/
abbrev Name := Bytes

instance : LawfulBEq Name := inferInstance

inductive TriggerKind where
  | periodic
  | data
  | taskDependency
  | manual
  | service
  deriving DecidableEq, Repr

inductive DependencyPolicy where
  | all
  | any
  deriving DecidableEq, Repr

structure TriggerSpec where
  kind : TriggerKind := .manual
  period : Int := 0
  dependencyPolicy : DependencyPolicy := .all
  dataDependencies : List Name := []
  taskDependencies : List Name := []
  priority : Int := 0
  deadline : Int := 0
  serviceDependencies : List Name := []
  deriving DecidableEq, Repr

def TriggerSpec.validate (trigger : TriggerSpec) : Status :=
  if trigger.kind = .periodic ∧ trigger.period ≤ 0 then
    .error .invalidArgument (text "periodic trigger period must be greater than zero")
  else if trigger.kind = .service ∧ trigger.serviceDependencies = [] then
    .error .invalidArgument (text "service trigger requires at least one service")
  else if trigger.kind ≠ .service ∧ trigger.serviceDependencies ≠ [] then
    .error .invalidArgument (text "trigger services can only be used with service triggers")
  else if trigger.kind ≠ .data ∧ trigger.kind ≠ .taskDependency ∧ trigger.dependencyPolicy ≠ .all then
    .error .invalidArgument (text "trigger dependency_policy can only be used with data or task dependency triggers")
  else if trigger.deadline < 0 then .error .invalidArgument (text "trigger deadline must not be negative")
  else .ok

def effectiveDeadline (trigger : TriggerSpec) : Int :=
  if 0 < trigger.deadline then trigger.deadline
  else if trigger.kind = .periodic then trigger.period else 0

/-- The first trigger of that kind, in declaration order. -/
def findTrigger (triggers : List TriggerSpec) (kind : TriggerKind) : Option TriggerSpec :=
  triggers.find? fun trigger => trigger.kind = kind

structure SchedulerOptions where
  workerCount : Nat := 1
  priorityAgingInterval : Int := 0
  deriving DecidableEq, Repr

def SchedulerOptions.validate (options : SchedulerOptions) : Status :=
  if options.workerCount = 0 then
    .error .invalidArgument (text "scheduler worker_count must be greater than zero")
  else if options.priorityAgingInterval < 0 then
    .error .invalidArgument (text "scheduler priority_aging_interval must not be negative")
  else .ok

/-! ## Readiness -/

/-- `DataTriggerState` and `TaskTriggerState`. -/
structure TriggerState where
  policy : DependencyPolicy
  ready : List Bool
  priority : Int
  deadline : Int
  deriving DecidableEq, Repr

/-- A fresh state: nothing is ready. -/
def TriggerState.ofSpec (trigger : TriggerSpec) (dependencies : Nat) : TriggerState :=
  ⟨trigger.dependencyPolicy, List.replicate dependencies false, trigger.priority, effectiveDeadline trigger⟩

/--
Dependency `index` was notified: the new state, and whether to queue the component. `none`
is `ready[index]` past the end of the vector.
-/
def TriggerState.notify (trigger : TriggerState) (index : Nat) : Option (TriggerState × Bool) :=
  match trigger.policy with
  | .any => some (trigger, true)
  | .all =>
    if index < trigger.ready.length then
      let ready := trigger.ready.set index true
      if ready.all id then some ({ trigger with ready := ready.map fun _ => false }, true)
      else some ({ trigger with ready := ready }, false)
    else none

theorem TriggerState.notify_isSome {trigger : TriggerState} {index : Nat} (h : index < trigger.ready.length) :
    ∃ next enqueue, trigger.notify index = some (next, enqueue) := by
  unfold notify
  split
  · exact ⟨_, _, rfl⟩
  · simp only [h, if_true]
    split
    · exact ⟨_, _, rfl⟩
    · exact ⟨_, _, rfl⟩

/-- A notification never changes how many dependencies a trigger has. -/
theorem TriggerState.notify_ready_length {trigger next : TriggerState} {index : Nat} {enqueue : Bool}
    (h : trigger.notify index = some (next, enqueue)) : next.ready.length = trigger.ready.length := by
  unfold notify at h
  split at h
  · cases h; rfl
  · split at h
    · dsimp only at h
      split at h
      · cases h; simp
      · cases h; simp
    · cases h

end PuppetMaster.Scheduler
