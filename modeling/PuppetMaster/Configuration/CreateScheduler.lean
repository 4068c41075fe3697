/-
  PuppetMaster.Configuration.CreateScheduler — `CreateScheduler` with what it leaves in the
  runtime (configuration.cpp).

  A loop over registrations stops at the first that fails, and those before it stay: the
  functions give their answer together with the runtime they leave. One overload registers
  the specs of a project, the other instances that a factory makes for them. `Describe` is
  the instance's own code: what it answers may change from call to call, and no factory or
  instance changes the runtime itself. An empty factory is `none`, a null instance too.

  The description of a component, which a project does not keep here, is an argument.
-/

import PuppetMaster.Configuration.Schedulable
import PuppetMaster.Runtime.Lifecycle

namespace PuppetMaster.Configuration

open PuppetMaster.Core PuppetMaster.Lib PuppetMaster.Scheduler PuppetMaster.Service
open PuppetMaster.Runtime (ComponentSpec ComponentRegistry ComponentState)

/-- A spec and its description. -/
abbrev Described := ComponentSpec × Bytes

/-- An instance, by the answers of `Describe`, call by call. -/
structure Component where
  describe : Nat → Described

/-- `std::function`s are called with the spec of a component. -/
abbrev ComponentFactory := Described → Result (Option Component)

/-- The components of a `RuntimeContext`: what is registered, the instances and their states. -/
structure RuntimeComponents where
  components : ComponentRegistry := .empty
  instances : SortedMap Name Component := .empty
  states : SortedMap Name ComponentState := .empty

/-! ## Registration -/

/-- A key that is there keeps its value. -/
def emplace {α : Type} (m : SortedMap Name α) (name : Name) (value : α) : SortedMap Name α :=
  if (m.find? name).isSome then m else m.insert name value

namespace RuntimeComponents

def registerSpec (runtime : RuntimeComponents) (spec : ComponentSpec) : Result RuntimeComponents := do
  let components ← runtime.components.register spec
  return { runtime with components }

/-- `RegisterComponentInstance`; `call` is the number of times the instance was asked before. -/
def registerInstance (call : Nat) (runtime : RuntimeComponents) (component : Component) : Result RuntimeComponents := do
  let spec := (component.describe call).1
  spec.validate
  let components ← runtime.components.register spec
  return { components, instances := emplace runtime.instances spec.name component,
           states := emplace runtime.states spec.name .created }

end RuntimeComponents

/-- Registrations one by one, up to the first that fails. -/
def registerEach {α : Type} (register : RuntimeComponents → α → Result RuntimeComponents) :
    List α → RuntimeComponents → Result Unit × RuntimeComponents
  | [], runtime => (.ok (), runtime)
  | a :: as, runtime =>
    match register runtime a with
    | .ok runtime => registerEach register as runtime
    | .error status => (.error status, runtime)

/-- What was registered goes to a new scheduler, with all that the runtime has. -/
def scheduleAll (registered : Result Unit × RuntimeComponents) : Result Registrations × RuntimeComponents :=
  match registered.1 with
  | .ok () => (registerAllComponents registered.2.components {}, registered.2)
  | .error status => (.error status, registered.2)

/-! ## Specs -/

def samePolicy (lhs rhs : MessagePolicy) : Bool :=
  lhs.delivery == rhs.delivery && lhs.retention == rhs.retention && lhs.freshness == rhs.freshness
    && lhs.overflow == rhs.overflow && lhs.queueDepth == rhs.queueDepth

/-- Two lists of one length, whose elements are the same pair by pair. -/
def sameEach {α : Type} (same : α → α → Bool) (lhs rhs : List α) : Bool :=
  lhs.length == rhs.length && (lhs.zip rhs).all fun pair => same pair.1 pair.2

def sameEndpoints : List EndpointConfig → List EndpointConfig → Bool :=
  sameEach fun lhs rhs =>
    lhs.topic.name == rhs.topic.name && lhs.topic.transport == rhs.topic.transport
      && samePolicy lhs.topic.messagePolicy rhs.topic.messagePolicy && lhs.message == rhs.message

def sameTriggers : List TriggerSpec → List TriggerSpec → Bool :=
  sameEach fun lhs rhs =>
    lhs.kind == rhs.kind && lhs.period == rhs.period && lhs.dependencyPolicy == rhs.dependencyPolicy
      && lhs.dataDependencies == rhs.dataDependencies && lhs.taskDependencies == rhs.taskDependencies
      && lhs.serviceDependencies == rhs.serviceDependencies && lhs.priority == rhs.priority && lhs.deadline == rhs.deadline

def sameServices : List ServiceDeclaration → List ServiceDeclaration → Bool :=
  sameEach fun lhs rhs =>
    lhs.name == rhs.name && lhs.transport == rhs.transport && lhs.request == rhs.request && lhs.reply == rhs.reply

def sameSpec (lhs rhs : Described) : Bool :=
  lhs.1.name == rhs.1.name && lhs.2 == rhs.2 && sameEndpoints lhs.1.readers rhs.1.readers
    && sameEndpoints lhs.1.writers rhs.1.writers && sameTriggers lhs.1.triggers rhs.1.triggers
    && sameServices lhs.1.servers rhs.1.servers && sameServices lhs.1.clients rhs.1.clients

/-! ## The two overloads -/

namespace ProjectConfig

def registerSpec (project : ProjectConfig) (runtime : RuntimeComponents) (component : ComponentConfig) :
    Result RuntimeComponents := do
  let spec ← component.toComponentSpec project
  runtime.registerSpec spec

/-- `ApplyComponentSpecs`. -/
def applySpecs (project : ProjectConfig) (runtime : RuntimeComponents) : Result Unit × RuntimeComponents :=
  match project.validate >>= fun _ => project.components.forM (project.checkUnregistered runtime.components) with
  | .ok () => registerEach project.registerSpec project.components runtime
  | .error status => (.error status, runtime)

def createScheduler (project : ProjectConfig) (runtime : RuntimeComponents) : Result Registrations × RuntimeComponents :=
  match project.validate with
  | .error status => (.error status, runtime)
  | .ok () =>
    match (project.applySpecs runtime).1 with
    | .error status => (.error status, (project.applySpecs runtime).2)
    | .ok () =>
      match project.schedulerOptions.validate.check with
      | .error status => (.error status, (project.applySpecs runtime).2)
      | .ok () => scheduleAll (project.applySpecs runtime)

/-- The instance of one component, which has to describe itself as the project does. -/
def makeInstance (project : ProjectConfig) (description : Name → Bytes) (runtime : RuntimeComponents)
    (factory : ComponentFactory) (component : ComponentConfig) : Result Component := do
  let spec ← component.toComponentSpec project
  if (runtime.components.find? spec.name).isSome then
    .error (.error .alreadyExists (text "component is already registered: " ++ component.name))
  else
    let described : Described := (spec, description component.name)
    let made ← factory described
    match made with
    | none => invalidArgument (text "component factory returned null: " ++ component.name)
    | some made =>
      if sameSpec described (made.describe 0) then .ok made
      else invalidArgument (text "component factory returned mismatched spec: " ++ component.name)

def createSchedulerWith (project : ProjectConfig) (description : Name → Bytes) (runtime : RuntimeComponents)
    (factory : Option ComponentFactory) : Result Registrations × RuntimeComponents :=
  match project.validate with
  | .error status => (.error status, runtime)
  | .ok () =>
    match factory with
    | none => (invalidArgument (text "component factory must not be empty"), runtime)
    | some factory =>
      match project.components.mapM (project.makeInstance description runtime factory) with
      | .error status => (.error status, runtime)
      | .ok instances => scheduleAll (registerEach (RuntimeComponents.registerInstance 1) instances runtime)

end ProjectConfig

/-! ## Against the registry alone -/

end PuppetMaster.Configuration
