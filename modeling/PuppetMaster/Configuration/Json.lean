/-
  PuppetMaster.Configuration.Json — project documents (json_loader.cpp): what `Decode` makes
  of the values of a JSON text.

  A reader that does not find what it needs throws `std::invalid_argument`; a `Thrown` has
  the message, which starts with the path of the field. A field that is not there keeps the
  value it has. An object has its entries in the order of their keys, each key once. A
  number is an integer when it has no fraction and fits 64 bits, signed or unsigned.

  Descriptions, component types and the two booleans of `runtime` are checked and dropped.
-/

import PuppetMaster.Configuration.Project
import PuppetMaster.Core.Decimal

namespace PuppetMaster.Configuration

open PuppetMaster.Core PuppetMaster.Lib PuppetMaster.Scheduler

inductive Json where
  | null
  | boolean (value : Bool)
  | integer (value : Int)
  | float (shown : Bytes)
  | string (value : Bytes)
  | array (items : List Json)
  | object (entries : List (Bytes × Json))

/-- What a function that throws `std::invalid_argument` gives, or the message. -/
abbrev Thrown (α : Type) := Except Bytes α

theorem thrown_bind {α β : Type} {x : Thrown α} {f : α → Thrown β} {b : β} (h : (x >>= f) = .ok b) :
    ∃ a, x = .ok a ∧ f a = .ok b := bind_eq_ok.mp h

/-! ## Enumerations -/

def toLower (byte : UInt8) : UInt8 := if 0x41 ≤ byte && byte ≤ 0x5a then byte + 0x20 else byte

def normalize (value : Bytes) : Bytes :=
  (((value.dropWhile isSpace).reverse.dropWhile isSpace).reverse).map toLower

def parseEnum {α : Type} (mapping : List (String × α)) (kind : String) (value : Bytes) : Result α :=
  match mapping.find? fun entry => text entry.1 = normalize value with
  | some entry => .ok entry.2
  | none => invalidArgument (text "unknown " ++ text kind ++ text ": " ++ normalize value)

def parseTransportKind : Bytes → Result TransportKind :=
  parseEnum [("inmemory", .inMemory), ("in_memory", .inMemory), ("fastdds", .fastDds), ("fast_dds", .fastDds),
    ("zmq", .zmq), ("ipc", .ipc), ("shm", .ipc)] "transport kind"

def parseTriggerKind : Bytes → Result TriggerKind :=
  parseEnum [("manual", .manual), ("periodic", .periodic), ("data", .data), ("task", .taskDependency),
    ("task_dependency", .taskDependency), ("service", .service)] "trigger kind"

def parseDeliveryGuarantee : Bytes → Result DeliveryGuarantee :=
  parseEnum [("best_effort", .bestEffort), ("besteffort", .bestEffort), ("reliable", .reliable)] "delivery guarantee"

def parseRetentionPolicy : Bytes → Result RetentionPolicy :=
  parseEnum [("keep_last", .keepLast), ("keeplast", .keepLast), ("keep_all", .keepAll), ("keepall", .keepAll)]
    "retention policy"

def parseFreshnessPolicy : Bytes → Result FreshnessPolicy :=
  parseEnum [("latest", .latest), ("queued", .queued)] "freshness policy"

def parseQueueOverflowPolicy : Bytes → Result QueueOverflowPolicy :=
  parseEnum [("drop_oldest", .dropOldest), ("dropoldest", .dropOldest), ("drop_newest", .dropNewest),
    ("dropnewest", .dropNewest), ("block", .block), ("reject", .reject)] "queue overflow policy"

def parseDependencyPolicy : Bytes → Result DependencyPolicy :=
  parseEnum [("all", .all), ("any", .any)] "dependency policy"

/-! ## Fields -/

namespace Json

def find? (value : Json) (key : String) : Option Json :=
  match value with
  | .object entries => (entries.find? fun entry => entry.1 = text key).map Prod.snd
  | _ => none

def checkObject (value : Json) (path : Bytes) (fields : List String) : Thrown Unit :=
  match value with
  | .object entries =>
    match entries.find? fun entry => entry.1 ∉ fields.map text with
    | some entry => .error (path ++ text "." ++ entry.1 ++ text " is unknown")
    | none => .ok ()
  | _ => .error (path ++ text " must be an object")

/-- `Read`, with what makes a value of the type of the output; it has the path of the field. -/
def read {α : Type} (decode : Bytes → Json → Thrown α) (object : Json) (key : String) (output : α) (path : Bytes) :
    Thrown α :=
  match object.find? key with
  | some value => decode (path ++ text "." ++ text key) value
  | none => .ok output

def asString (field : Bytes) : Json → Thrown Bytes
  | .string value => .ok value
  | _ => .error (field ++ text " must be a string")

def asBool (field : Bytes) : Json → Thrown Bool
  | .boolean value => .ok value
  | _ => .error (field ++ text " must be a boolean")

/-- An integer between the limits of the output's type. -/
def asInteger (min max : Int) (field : Bytes) : Json → Thrown Int
  | .integer value =>
    if value < min ∨ max < value then .error (field ++ text " is out of range") else .ok value
  | _ => .error (field ++ text " must be an integer")

def string? : Json → Option Bytes
  | .string value => some value
  | _ => none

def strings? : Json → Option (List Bytes)
  | .array items => items.mapM string?
  | _ => none

def asStrings (field : Bytes) (value : Json) : Thrown (List Bytes) :=
  match value.strings? with
  | some values => .ok values
  | none => .error (field ++ text " must be an array of strings")

theorem strings?_array (values : List Bytes) : (Json.array (values.map .string)).strings? = some values := by
  show (values.map Json.string).mapM string? = some values
  induction values with
  | nil => rfl
  | cons value values ih => rw [List.map_cons, List.mapM_cons, ih]; rfl

def readString : Json → String → Bytes → Bytes → Thrown Bytes := read asString

def readStrings : Json → String → List Bytes → Bytes → Thrown (List Bytes) := read asStrings

/-- A `std::int64_t`. -/
def readInt64 : Json → String → Int → Bytes → Thrown Int := read (asInteger (-2 ^ 63) (2 ^ 63 - 1))

def readInt32 : Json → String → Int → Bytes → Thrown Int := read (asInteger (-2 ^ 31) (2 ^ 31 - 1))

/-- A `std::size_t`. -/
def readSize (object : Json) (key : String) (output : Nat) (path : Bytes) : Thrown Nat := do
  let value ← read (asInteger 0 (2 ^ 64 - 1)) object key output path
  return value.toNat

def readUInt32 (object : Json) (key : String) (output : UInt32) (path : Bytes) : Thrown UInt32 := do
  let value ← read (asInteger 0 (2 ^ 32 - 1)) object key output.toNat path
  return UInt32.ofNat value.toNat

def readEnum {α : Type} (parse : Bytes → Result α) (object : Json) (key : String) (output : α) (path : Bytes) : Thrown α :=
  match object.find? key with
  | none => .ok output
  | some _ => do
    let value ← readString object key [] path
    match parse value with
    | .ok result => return result
    | .error status => .error (path ++ text "." ++ text key ++ text ": " ++ status.message)

/-- A value that is decoded over `output` when its field is there. -/
def optional {α : Type} (object : Json) (key : String) (decode : Json → α → Thrown α) (output : α) : Thrown α :=
  match object.find? key with
  | some value => decode value output
  | none => .ok output

/-- `Array`: the elements of a field, none when it is not there. -/
def elements (object : Json) (key : String) (path : Bytes) : Thrown (List Json) :=
  match object.find? key with
  | none => .ok []
  | some (.array items) => .ok items
  | some _ => .error (path ++ text "." ++ text key ++ text " must be an array")

/-- A setting as text, which for a number or a boolean is `dump()`. -/
def setting? : Json → Option Bytes
  | .string value => some value
  | .boolean value => some (text (if value then "true" else "false"))
  | .integer value => some (signedText value)
  | .float shown => some shown
  | _ => none

def readParameters (object : Json) (path : Bytes) (key : String) : Thrown ParameterMap :=
  let field := path ++ text "." ++ text key
  match object.find? key with
  | none => .ok .empty
  | some (.object entries) =>
    entries.foldlM (fun parameters entry =>
      match entry.2.setting? with
      | some value => .ok (parameters.insert entry.1 value)
      | none => .error (field ++ text "." ++ entry.1 ++ text " must be a string, number, or boolean")) .empty
  | some _ => .error (field ++ text " must be an object")

end Json

/-! ## Declarations -/

/-- The path of an element of an array. -/
def elementPath (path : Bytes) (key : String) (index : Nat) : Bytes :=
  path ++ text "." ++ text key ++ text "[" ++ toText index ++ text "]"

def readPolicy (value : Json) (policy : MessagePolicy) (path : Bytes) : Thrown MessagePolicy := do
  value.checkObject path ["delivery", "retention", "freshness", "overflow", "queue_depth"]
  let delivery ← value.readEnum parseDeliveryGuarantee "delivery" policy.delivery path
  let retention ← value.readEnum parseRetentionPolicy "retention" policy.retention path
  let freshness ← value.readEnum parseFreshnessPolicy "freshness" policy.freshness path
  let overflow ← value.readEnum parseQueueOverflowPolicy "overflow" policy.overflow path
  let queueDepth ← value.readSize "queue_depth" policy.queueDepth path
  return { delivery, retention, freshness, overflow, queueDepth }

def decodeTopic (value : Json) (path : Bytes) : Thrown TopicConfig := do
  value.checkObject path ["id", "name", "transport", "message_type", "message_version", "encoding", "message_policy"]
  let topic : TopicConfig := { id := [], name := [], messageType := [] }
  let id ← value.readString "id" topic.id path
  let name ← value.readString "name" topic.name path
  let messageType ← value.readString "message_type" topic.messageType path
  let messageVersion ← value.readUInt32 "message_version" topic.messageVersion path
  let encoding ← value.readString "encoding" topic.encoding path
  let transport ← value.readEnum parseTransportKind "transport" topic.transport path
  let messagePolicy ← value.optional "message_policy"
    (fun fields policy => readPolicy fields policy (path ++ text ".message_policy")) topic.messagePolicy
  return { topic with id, name, messageType, messageVersion, encoding, transport, messagePolicy }

def decodeService (value : Json) (path : Bytes) : Thrown ServiceConfig := do
  value.checkObject path ["id", "name", "transport", "request_type", "reply_type", "encoding", "request_version",
    "reply_version", "queue_depth", "heartbeat_interval_ns"]
  let service : ServiceConfig := { id := [], name := [], requestType := [], replyType := [] }
  let id ← value.readString "id" service.id path
  let name ← value.readString "name" service.name path
  let transport ← value.readEnum parseTransportKind "transport" service.transport path
  let requestType ← value.readString "request_type" service.requestType path
  let replyType ← value.readString "reply_type" service.replyType path
  let encoding ← value.readString "encoding" service.encoding path
  let requestVersion ← value.readUInt32 "request_version" service.requestVersion path
  let replyVersion ← value.readUInt32 "reply_version" service.replyVersion path
  let queueDepth ← value.readSize "queue_depth" service.queueDepth path
  let heartbeatInterval ← value.readInt64 "heartbeat_interval_ns" service.heartbeatInterval path
  return { service with id, name, transport, requestType, replyType, encoding, requestVersion, replyVersion, queueDepth,
                        heartbeatInterval }

/-! ## Components -/

/-- A reader: a topic id, or an object that names the topic, with fields over the topic's own policy. -/
def decodeReader (project : ProjectConfig) (path : Bytes) (output : ComponentConfig) (entry : Json × Nat) :
    Thrown ComponentConfig :=
  let path := elementPath path "readers" entry.2
  match entry.1 with
  | .string topicId => .ok { output with readers := output.readers ++ [topicId] }
  | .object fields => do
    (Json.object fields).checkObject path ["topic", "delivery", "retention", "freshness", "overflow", "queue_depth"]
    let topicId ← (Json.object fields).readString "topic" [] path
    if topicId = [] then .error (path ++ text ".topic is required")
    else
      match project.findTopic topicId with
      | .error status => .error (path ++ text ": " ++ status.message)
      | .ok topic => do
        let rest := fields.filter fun field => field.1 ≠ text "topic"
        let policy ← readPolicy (.object rest) topic.messagePolicy path
        if (output.readerPolicies.find? topicId).isSome then
          .error (path ++ text ": topic " ++ topicId ++ text " is read twice")
        else
          .ok { output with readers := output.readers ++ [topicId]
                            readerPolicies := output.readerPolicies.insert topicId policy }
  | _ => .error (path ++ text " must be a topic id or an object")

def decodeReaders (component : Json) (path : Bytes) (project : ProjectConfig) (output : ComponentConfig) :
    Thrown ComponentConfig := do
  let entries ← component.elements "readers" path
  entries.zipIdx.foldlM (decodeReader project path) output

def decodeTrigger (path : Bytes) (entry : Json × Nat) : Thrown TriggerConfig := do
  let value := entry.1
  let path := elementPath path "triggers" entry.2
  value.checkObject path ["kind", "period_ns", "dependency_policy", "data_topics", "task_dependencies", "services",
    "priority", "deadline_ns"]
  let trigger : TriggerConfig := {}
  let kind ← value.readEnum parseTriggerKind "kind" trigger.kind path
  let period ← value.readInt64 "period_ns" trigger.period path
  let priority ← value.readInt32 "priority" trigger.priority path
  let deadline ← value.readInt64 "deadline_ns" trigger.deadline path
  let dependencyPolicy ← value.readEnum parseDependencyPolicy "dependency_policy" trigger.dependencyPolicy path
  let dataTopics ← value.readStrings "data_topics" trigger.dataTopics path
  let taskDependencies ← value.readStrings "task_dependencies" trigger.taskDependencies path
  let services ← value.readStrings "services" trigger.services path
  return { kind, period, priority, deadline, dependencyPolicy, dataTopics, taskDependencies, services }

def decodeComponent (value : Json) (path : Bytes) (project : ProjectConfig) : Thrown ComponentConfig := do
  value.checkObject path ["name", "description", "readers", "writers", "triggers", "type", "parameters", "servers",
    "clients"]
  let name ← value.readString "name" [] path
  let _type ← value.readString "type" [] path
  let _description ← value.readString "description" [] path
  let component ← decodeReaders value path project { name }
  let writers ← value.readStrings "writers" component.writers path
  let servers ← value.readStrings "servers" component.servers path
  let clients ← value.readStrings "clients" component.clients path
  let _parameters ← value.readParameters path "parameters"
  let entries ← value.elements "triggers" path
  let triggers ← entries.zipIdx.mapM (decodeTrigger path)
  return { component with writers, servers, clients, triggers }

/-! ## Settings -/

def decodeRuntimeOptions (options : Json) (output : RuntimeOptions) : Thrown RuntimeOptions := do
  options.checkObject (text "$.runtime")
    ["default_transport_name", "register_inmemory_transport", "open_registered_transports"]
  let name ← options.readString "default_transport_name" output.defaultTransportName (text "$.runtime")
  match createName "transport name" name with
  | .error status => .error (text "$.runtime.default_transport_name: " ++ status.message)
  | .ok defaultTransportName => do
    let _inMemory ← Json.read Json.asBool options "register_inmemory_transport" true (text "$.runtime")
    let _open ← Json.read Json.asBool options "open_registered_transports" true (text "$.runtime")
    return { output with defaultTransportName }

def decodeSchedulerOptions (options : Json) (output : SchedulerOptions) : Thrown SchedulerOptions := do
  options.checkObject (text "$.scheduler") ["worker_count", "priority_aging_interval_ns"]
  let workerCount ← options.readSize "worker_count" output.workerCount (text "$.scheduler")
  let priorityAgingInterval ←
    options.readInt64 "priority_aging_interval_ns" output.priorityAgingInterval (text "$.scheduler")
  return { output with workerCount, priorityAgingInterval }

def decodeProjectSettings (root : Json) (project : ProjectConfig) : Thrown ProjectConfig := do
  let runtimeOptions ← root.optional "runtime" decodeRuntimeOptions project.runtimeOptions
  let schedulerOptions ← root.optional "scheduler" decodeSchedulerOptions project.schedulerOptions
  return { project with runtimeOptions, schedulerOptions }

end PuppetMaster.Configuration
