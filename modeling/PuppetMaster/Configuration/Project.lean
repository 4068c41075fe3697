/-
  PuppetMaster.Configuration.Project — `ProjectConfig` and its checks (configuration.cpp).

  A project declares topics, services and components by id; `toComponentSpec` replaces the
  ids by wire names and builds the spec that a runtime registers. `validate` checks a whole
  project; `applyComponentSpecs` registers the specs of a valid one.

  Descriptions, component types and component parameters are left out: no check reads them.
-/

import PuppetMaster.Core.Parameters
import PuppetMaster.Lib.TopologicalSort
import PuppetMaster.Scheduler.Register
import PuppetMaster.Scheduler.TaskGraph

namespace PuppetMaster.Configuration

open PuppetMaster.Core PuppetMaster.Lib PuppetMaster.Scheduler PuppetMaster.Service
open PuppetMaster.Runtime (ComponentSpec ComponentRegistry)

structure RuntimeOptions where
  defaultTransportName : Bytes := text "inmemory"

def RuntimeOptions.validate (options : RuntimeOptions) : Status :=
  validateName "default transport name" options.defaultTransportName

structure TopicConfig where
  id : Bytes
  name : Name
  transport : TransportKind := .inMemory
  messageType : Bytes
  encoding : Bytes := text "application/octet-stream"
  messagePolicy : MessagePolicy := {}
  messageVersion : UInt32 := 0
  transportParameters : ParameterMap := .empty

structure ServiceConfig where
  id : Bytes
  name : Name
  transport : TransportKind := .inMemory
  requestType : Bytes
  replyType : Bytes
  encoding : Bytes := text "application/octet-stream"
  requestVersion : UInt32 := 0
  replyVersion : UInt32 := 0
  queueDepth : Nat := 16
  heartbeatInterval : Int := 100000000
  transportParameters : ParameterMap := .empty

structure TriggerConfig where
  kind : TriggerKind := .manual
  period : Int := 0
  dependencyPolicy : DependencyPolicy := .all
  dataTopics : List Bytes := []
  taskDependencies : List Bytes := []
  priority : Int := 0
  deadline : Int := 0
  services : List Bytes := []

structure ComponentConfig where
  name : Name
  readers : List Bytes := []
  writers : List Bytes := []
  triggers : List TriggerConfig := []
  readerPolicies : SortedMap Bytes MessagePolicy := .empty
  servers : List Bytes := []
  clients : List Bytes := []

structure ProjectConfig where
  runtimeOptions : RuntimeOptions := {}
  schedulerOptions : SchedulerOptions := {}
  topics : List TopicConfig := []
  components : List ComponentConfig := []
  services : List ServiceConfig := []

/-! ## Topics and services -/

def TopicConfig.validate (topic : TopicConfig) : Result Unit := do
  (validateName "topic id" topic.id).check
  let _ ← createName "topic name" topic.name
  refuse (topic.messageType = []) (text "topic message_type must not be empty: " ++ topic.id)
  refuse (topic.encoding = []) (text "topic encoding must not be empty: " ++ topic.id)
  topic.messagePolicy.validate.check

def TopicConfig.toEndpointConfig (topic : TopicConfig) : Result EndpointConfig := do
  topic.validate
  let name ← createName "topic name" topic.name
  let endpoint : EndpointConfig :=
    ⟨{ name, transport := topic.transport, messagePolicy := topic.messagePolicy },
      ⟨topic.messageType, topic.encoding, topic.messageVersion⟩⟩
  endpoint.validate.check
  return endpoint

def ServiceConfig.toServiceSpec (service : ServiceConfig) : Result ServiceDeclaration := do
  (validateName "service id" service.id).check
  let name ← within (text "service " ++ service.id ++ text ": ") (createName "topic name" service.name)
  let spec : ServiceDeclaration :=
    { name
      transport := service.transport
      request := ⟨service.requestType, service.encoding, service.requestVersion⟩
      reply := ⟨service.replyType, service.encoding, service.replyVersion⟩
      queueDepth := service.queueDepth
      heartbeatInterval := service.heartbeatInterval }
  within (text "service " ++ service.id ++ text ": ") spec.validate.check
  return spec

def ProjectConfig.findTopic (project : ProjectConfig) (id : Bytes) : Result TopicConfig :=
  match project.topics.find? fun topic => topic.id = id with
  | some topic => .ok topic
  | none => .error (.error .notFound (text "topic id is not configured: " ++ id))

def ProjectConfig.findService (project : ProjectConfig) (id : Bytes) : Result ServiceConfig :=
  match project.services.find? fun service => service.id = id with
  | some service => .ok service
  | none => .error (.error .notFound (text "service id is not configured: " ++ id))

def ProjectConfig.buildEndpoint (project : ProjectConfig) (topicId : Bytes) : Result EndpointConfig := do
  let topic ← project.findTopic topicId
  topic.toEndpointConfig

/-! ## Triggers -/

/-- The loop over `data_topics`; `seen` has the id that brought each name. -/
def dataNames (project : ProjectConfig) : List Bytes → List (Name × Bytes) → Result (List Name)
  | [], _ => .ok []
  | topicId :: topicIds, seen => do
    let topic ← project.findTopic topicId
    let name ← createName "topic name" topic.name
    match seen.find? fun entry => entry.1 = name with
    | some (_, first) =>
      invalidArgument (text "data trigger has duplicate topic dependency ids " ++ first ++ text " and " ++ topicId
        ++ text " for topic " ++ name)
    | none => do
      let names ← dataNames project topicIds (seen ++ [(name, topicId)])
      return name :: names

/-- The loop over the service ids of a trigger. -/
def serviceNames (project : ProjectConfig) : List Bytes → List Bytes → Result (List Name)
  | [], _ => .ok []
  | serviceId :: serviceIds, seen => do
    refuse (serviceId ∈ seen) (text "service trigger lists service " ++ serviceId ++ text " twice")
    let service ← project.findService serviceId
    let name ← createName "topic name" service.name
    let names ← serviceNames project serviceIds (serviceId :: seen)
    return name :: names

def TriggerConfig.toTriggerSpec (project : ProjectConfig) (trigger : TriggerConfig) : Result TriggerSpec := do
  refuse (trigger.kind ≠ .periodic ∧ trigger.period ≠ 0)
    (text "trigger period can only be used with periodic triggers")
  refuse (trigger.kind ≠ .data ∧ trigger.kind ≠ .taskDependency ∧ trigger.dependencyPolicy ≠ .all)
    (text "trigger dependency_policy can only be used with data or task dependency triggers")
  refuse (trigger.kind ≠ .data ∧ trigger.dataTopics ≠ []) (text "trigger data_topics can only be used with data triggers")
  refuse (trigger.kind ≠ .taskDependency ∧ trigger.taskDependencies ≠ [])
    (text "trigger task_dependencies can only be used with task dependency triggers")
  refuse (trigger.kind = .taskDependency ∧ trigger.taskDependencies = [])
    (text "task dependency trigger requires at least one task dependency")
  refuse (trigger.kind ≠ .service ∧ trigger.services ≠ []) (text "trigger services can only be used with service triggers")
  refuse (trigger.kind = .service ∧ trigger.services = []) (text "service trigger requires at least one service id")
  refuse (trigger.kind = .data ∧ trigger.dataTopics = []) (text "data trigger requires at least one topic id")
  let dataDependencies ← dataNames project trigger.dataTopics []
  let taskDependencies ← trigger.taskDependencies.mapM (createName "task name")
  let serviceDependencies ← serviceNames project trigger.services []
  let spec : TriggerSpec :=
    { kind := trigger.kind
      period := trigger.period
      dependencyPolicy := trigger.dependencyPolicy
      dataDependencies
      taskDependencies
      priority := trigger.priority
      deadline := trigger.deadline
      serviceDependencies }
  spec.validate.check
  return spec

/-! ## Components -/

namespace ComponentConfig

def describe (component : ComponentConfig) : Bytes := text "component " ++ component.name

/-- The reader of one topic, with the component's own policy for it. -/
def buildReader (project : ProjectConfig) (component : ComponentConfig) (topicId : Bytes) : Result EndpointConfig := do
  let endpoint ← project.buildEndpoint topicId
  match component.readerPolicies.find? topicId with
  | some policy => return { endpoint with topic := { endpoint.topic with messagePolicy := policy } }
  | none => return endpoint

def checkReaderPolicy (component : ComponentConfig) (entry : Bytes × MessagePolicy) : Result Unit := do
  refuse (entry.1 ∉ component.readers)
    (component.describe ++ text " sets a reader policy for " ++ entry.1 ++ text ", which it does not read")
  within (component.describe ++ text " reader policy for " ++ entry.1 ++ text ": ") entry.2.validate.check

/-- The services of one list of ids, `servers` or `clients`. -/
def buildServices (project : ProjectConfig) (component : ComponentConfig) (kind : String) :
    List Bytes → List Bytes → Result (List ServiceDeclaration)
  | [], _ => .ok []
  | serviceId :: serviceIds, seen => do
    refuse (serviceId ∈ seen)
      (component.describe ++ text " lists " ++ text kind ++ text " " ++ serviceId ++ text " twice")
    let service ← within (component.describe ++ text " " ++ text kind ++ text ": ") (project.findService serviceId)
    let spec ← service.toServiceSpec
    let specs ← buildServices project component kind serviceIds (serviceId :: seen)
    return spec :: specs

/-- A data trigger's topic may have one reader only. -/
def checkSingleReader (component : ComponentConfig) (readers : List EndpointConfig) (index : Nat) (topic : Name) :
    Result Unit :=
  refuse (1 < readers.countP fun endpoint => endpoint.topic.name = topic)
    (component.describe ++ text s!" trigger {index} has multiple reader endpoints for topic " ++ topic)

/-- The loop over the triggers, from `index` on; `dataTriggerTopics` has the topics of the ones before. -/
def buildTriggers (project : ProjectConfig) (component : ComponentConfig) (readers : List EndpointConfig) :
    List TriggerConfig → Nat → List (Name × Nat) → Result (List TriggerSpec)
  | [], _, _ => .ok []
  | trigger :: triggers, index, dataTriggerTopics => do
    let spec ← within (component.describe ++ text s!" trigger {index}: ") (trigger.toTriggerSpec project)
    let dataTriggerTopics ←
      (if spec.kind = .data then
        claimAll (component.checkSingleReader readers index) (triggersShare component.name index "data topic ") index
          spec.dataDependencies dataTriggerTopics
      else .ok dataTriggerTopics)
    let specs ← buildTriggers project component readers triggers (index + 1) dataTriggerTopics
    return spec :: specs

def toComponentSpec (project : ProjectConfig) (component : ComponentConfig) : Result ComponentSpec := do
  let name ← createName "component name" component.name
  let readers ← component.readers.mapM (component.buildReader project)
  component.readerPolicies.entries.forM component.checkReaderPolicy
  let servers ← component.buildServices project "server" component.servers []
  let clients ← component.buildServices project "client" component.clients []
  let writers ← component.writers.mapM project.buildEndpoint
  let triggers ← component.buildTriggers project readers component.triggers 0 []
  let spec : ComponentSpec := { name, readers, writers, triggers, servers, clients }
  spec.validate
  return spec

/-- What a trigger names is declared by its component. -/
def checkDeclared (component : ComponentConfig) (trigger : TriggerConfig) : Result Unit := do
  trigger.dataTopics.forM fun topicId =>
    refuse (topicId ∉ component.readers)
      (text "component data trigger topic must also be declared as a reader: " ++ topicId)
  trigger.services.forM fun serviceId =>
    refuse (serviceId ∉ component.servers)
      (component.describe ++ text " service trigger service must also be declared in servers: " ++ serviceId)

def validate (project : ProjectConfig) (component : ComponentConfig) : Result Unit := do
  let spec ← component.toComponentSpec project
  spec.validate
  component.triggers.forM component.checkDeclared

end ComponentConfig

/-! ## The project -/

/-- The keys come one by one; one that was seen is refused as a duplicate. -/
def validateUnique (what : String) : List Bytes → List Bytes → Result Unit
  | [], _ => .ok ()
  | key :: keys, seen =>
    if key ∈ seen then .error (.error .alreadyExists (text what ++ text " is duplicated: " ++ key))
    else validateUnique what keys (key :: seen)

def validateUniqueIds (topics : List TopicConfig) : Result Unit := validateUnique "topic id" (topics.map (·.id)) []

def validateUniqueComponents (components : List ComponentConfig) : Result Unit :=
  validateUnique "component name" (components.map (·.name)) []

/-- Topics of one transport and name are declared with one descriptor. -/
def validateDescriptors : List TopicConfig → List TopicConfig → Result Unit
  | [], _ => .ok ()
  | topic :: topics, declared =>
    match declared.find? fun first => first.transport = topic.transport ∧ first.name = topic.name with
    | none => validateDescriptors topics (declared ++ [topic])
    | some first => do
      refuse (first.messageType ≠ topic.messageType ∨ first.encoding ≠ topic.encoding
          ∨ first.messageVersion ≠ topic.messageVersion)
        (text "topic ids " ++ first.id ++ text " and " ++ topic.id ++ text " declare conflicting message descriptors for "
          ++ topic.transport.toText ++ text " topic " ++ topic.name)
      validateDescriptors topics declared

/-- A map from wire names to their owners; `emplace` keeps the first. -/
abbrev WireNames := List (Name × Bytes)

def claimWireName (service : ServiceConfig) (wireNames : WireNames) (name : Name) : Result WireNames :=
  match wireNames.find? fun entry => entry.1 = name with
  | none => .ok (wireNames ++ [(name, text "service " ++ service.id)])
  | some (_, owner) => do
    refuse (owner ≠ text "service " ++ service.id)
      (text "service " ++ service.id ++ text " uses topic " ++ name ++ text ", which " ++ owner ++ text " already uses")
    return wireNames

def validateServiceList : List ServiceConfig → List Bytes → WireNames → Result Unit
  | [], _, _ => .ok ()
  | service :: services, ids, wireNames => do
    if service.id ∈ ids then
      .error (.error .alreadyExists (text "service id is duplicated: " ++ service.id))
    else
      let spec ← service.toServiceSpec
      let endpoints ← endpointsFor spec
      let wireNames ← claimWireName service wireNames endpoints.request.topic.name
      let wireNames ← claimWireName service wireNames endpoints.reply.topic.name
      let wireNames ← claimWireName service wireNames endpoints.presence.topic.name
      validateServiceList services (service.id :: ids) wireNames

/-- The first topic of each name owns it. -/
def topicNames : List TopicConfig → WireNames → WireNames
  | [], wireNames => wireNames
  | topic :: topics, wireNames =>
    match wireNames.find? fun entry => entry.1 = topic.name with
    | none => topicNames topics (wireNames ++ [(topic.name, text "topic " ++ topic.id)])
    | some _ => topicNames topics wireNames

def validateServices (project : ProjectConfig) : Result Unit :=
  validateServiceList project.services [] (topicNames project.topics [])

/-! ## Task dependencies -/

/-- The loop over the dependencies of trigger `index`: one edge for each, from the upstream. -/
def dependencyEdges (names : List Name) (component : ComponentConfig) (index : Nat) :
    List Name → List Name → Result (List (Name × Name))
  | [], _ => .ok []
  | upstream :: rest, seen => do
    let location := component.describe ++ text s!" trigger {index}"
    refuse (upstream = component.name) (location ++ text " has self task dependency: " ++ upstream)
    refuse (upstream ∈ seen) (location ++ text " has duplicate task dependency: " ++ upstream)
    refuse (upstream ∉ names) (location ++ text " references unknown task dependency: " ++ upstream)
    let edges ← dependencyEdges names component index rest (upstream :: seen)
    return (upstream, component.name) :: edges

def triggerEdges (names : List Name) (component : ComponentConfig) :
    List TriggerConfig → Nat → Result (List (Name × Name))
  | [], _ => .ok []
  | trigger :: triggers, index => do
    let edges ←
      (if trigger.kind = .taskDependency then dependencyEdges names component index trigger.taskDependencies []
      else .ok [])
    let rest ← triggerEdges names component triggers (index + 1)
    return edges ++ rest

/-- The keys of `indegree`, in their order. -/
def componentNames (components : List ComponentConfig) : List Name :=
  ((components.foldl (fun names component => names.insert component.name ()) SortedMap.empty).entries).map Prod.fst

def validateTaskDependencies (components : List ComponentConfig) : Result Unit := do
  let names := componentNames components
  let edges ← components.mapM fun component => triggerEdges names component component.triggers 0
  let indegree := degreesOf names edges.flatten
  let visited := Lib.sort edges.flatten components.length indegree (sources indegree) 0
  refuse (visited ≠ components.length) (text "task dependency graph contains a cycle")

namespace ProjectConfig

def validate (project : ProjectConfig) : Result Unit := do
  project.runtimeOptions.validate.check
  project.schedulerOptions.validate.check
  validateUniqueIds project.topics
  validateUniqueComponents project.components
  project.topics.forM (·.validate)
  validateDescriptors project.topics []
  validateServices project
  project.components.forM (·.validate project)
  validateTaskDependencies project.components

def registerSpecs (project : ProjectConfig) : List ComponentConfig → ComponentRegistry → Result ComponentRegistry
  | [], runtime => .ok runtime
  | component :: components, runtime => do
    let spec ← component.toComponentSpec project
    let runtime ← runtime.register spec
    registerSpecs project components runtime

def checkUnregistered (project : ProjectConfig) (runtime : ComponentRegistry) (component : ComponentConfig) :
    Result Unit := do
  let spec ← component.toComponentSpec project
  if (runtime.find? spec.name).isSome then
    .error (.error .alreadyExists (text "component is already registered: " ++ component.name))
  else .ok ()

def applyComponentSpecs (project : ProjectConfig) (runtime : ComponentRegistry) : Result ComponentRegistry := do
  project.validate
  project.components.forM (project.checkUnregistered runtime)
  project.registerSpecs project.components runtime

/-- The specs in an empty runtime, all of them in a scheduler, and the task graph its start installs. -/
def schedule (project : ProjectConfig) : Result TaskGraph := do
  let runtime ← project.applyComponentSpecs .empty
  let registered ← registerAllComponents runtime {}
  installTaskTriggers (registered.components.entries.map fun entry => (entry.1, entry.2.triggers))

end ProjectConfig

end PuppetMaster.Configuration
