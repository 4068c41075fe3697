/-
  PuppetMaster.Configuration.SystemCheck — `ValidateSystem` (application.cpp).

  The check collects, for every wire name, where it is declared and which projects use it;
  then it compares the declarations of the projects that use a name, and counts those that
  write (serve) it. It does so once for topics and once for services: `Interface` has what
  the two passes differ in. `topics` compares declarations field by field, `services` by
  the text of their contract.

  `usesOf` lists what the loops over one project visit, in their order.
-/

import PuppetMaster.Configuration.Project

namespace PuppetMaster.Configuration

open PuppetMaster.Core PuppetMaster.Lib PuppetMaster.Scheduler

structure NamedProject where
  label : Bytes
  project : ProjectConfig

structure SystemReport where
  errors : List Bytes := []
  warnings : List Bytes := []

/-- The separator goes after text only, so not after an empty first item. -/
def join (items : List Bytes) : Bytes :=
  items.foldl (fun joined item => (if joined = [] then joined else joined ++ text ", ") ++ item) []

/-! ## Uses of one wire name -/

inductive Role where
  | declared
  | consumed
  | provided
  deriving DecidableEq

structure Use (α : Type) where
  role : Role
  label : Bytes
  item : α

/-- `TopicUses` and `ServiceUses`; readers and clients consume, writers and servers provide. -/
structure Uses (α : Type) where
  declarations : List (Bytes × α) := []
  consumers : SortedMap Bytes Unit := .empty
  providers : SortedMap Bytes Unit := .empty

namespace Uses

variable {α : Type}

def add (uses : Uses α) (use : Use α) : Uses α :=
  match use.role with
  | .declared => { uses with declarations := uses.declarations ++ [(use.label, use.item)] }
  | .consumed => { uses with consumers := uses.consumers.insert use.label () }
  | .provided => { uses with providers := uses.providers.insert use.label () }

def isUsedBy (uses : Uses α) (label : Bytes) : Bool :=
  label ∈ uses.consumers.keys || label ∈ uses.providers.keys

/-- The declarations that are not passed over with `continue`. -/
def compared (uses : Uses α) : List (Bytes × α) := uses.declarations.filter fun use => uses.isUsedBy use.1

end Uses

/-! ## Topics and services -/

structure Interface (α : Type) where
  kind : String
  consume : String
  provide : String
  declared : ProjectConfig → List α
  find : ProjectConfig → Bytes → Result α
  name : α → Name
  consumed : ComponentConfig → List Bytes
  provided : ComponentConfig → List Bytes
  differ : α → α → Bool
  describe : α → Bytes

def TopicConfig.describe (topic : TopicConfig) : Bytes :=
  MessageDescriptor.toText ⟨topic.messageType, topic.encoding, topic.messageVersion⟩ ++ text " over "
    ++ topic.transport.toText

def ServiceConfig.contract (service : ServiceConfig) : Bytes :=
  MessageDescriptor.toText ⟨service.requestType, service.encoding, service.requestVersion⟩ ++ text " -> "
    ++ MessageDescriptor.toText ⟨service.replyType, service.encoding, service.replyVersion⟩ ++ text " over "
    ++ service.transport.toText

def topics : Interface TopicConfig where
  kind := "topic"
  consume := "read"
  provide := "written"
  declared := ProjectConfig.topics
  find := ProjectConfig.findTopic
  name := TopicConfig.name
  consumed := ComponentConfig.readers
  provided := ComponentConfig.writers
  differ a b :=
    a.messageType ≠ b.messageType || a.encoding ≠ b.encoding || a.messageVersion ≠ b.messageVersion
      || a.transport ≠ b.transport
  describe := TopicConfig.describe

def services : Interface ServiceConfig where
  kind := "service"
  consume := "called"
  provide := "served"
  declared := ProjectConfig.services
  find := ProjectConfig.findService
  name := ServiceConfig.name
  consumed := ComponentConfig.clients
  provided := ComponentConfig.servers
  differ a b := a.contract ≠ b.contract
  describe := ServiceConfig.contract

namespace Interface

variable {α : Type} (i : Interface α)

/-- The uses a list of ids stands for; an id that is not found is passed over. -/
def found (role : Role) (entry : NamedProject) (ids : List Bytes) : List (Use α) :=
  ids.filterMap fun id =>
    match i.find entry.project id with
    | .ok item => some ⟨role, entry.label, item⟩
    | .error _ => none

def usesOf (entry : NamedProject) : List (Use α) :=
  (i.declared entry.project).map (fun item => ⟨.declared, entry.label, item⟩) ++
    entry.project.components.flatMap fun component =>
      i.found .consumed entry (i.consumed component) ++ i.found .provided entry (i.provided component)

def collect (projects : List NamedProject) : SortedMap Name (Uses α) :=
  (projects.flatMap i.usesOf).foldl (fun uses use => uses.modify (i.name use.item) {} (·.add use)) .empty

/-! ## The report -/

/-- The first declaration against each later one. -/
def conflicts (name : Name) (uses : Uses α) : List Bytes :=
  match uses.compared with
  | [] => []
  | first :: rest => (rest.filter fun use => i.differ first.2 use.2).map fun use =>
      text i.kind ++ text " " ++ name ++ text " is " ++ i.describe first.2 ++ text " in " ++ first.1 ++ text " but "
        ++ i.describe use.2 ++ text " in " ++ use.1

def providerErrors (name : Name) (uses : Uses α) : List Bytes :=
  if uses.providers.keys = [] then
    [text i.kind ++ text " " ++ name ++ text s!" is {i.consume} by " ++ join uses.consumers.keys
      ++ text s!" but {i.provide} by no process"]
  else if 1 < uses.providers.keys.length then
    [text i.kind ++ text " " ++ name ++ text s!" is {i.provide} by several processes: " ++ join uses.providers.keys]
  else []

def errorsOf (name : Name) (uses : Uses α) : List Bytes :=
  if uses.consumers.keys = [] ∧ uses.providers.keys = [] then []
  else i.conflicts name uses ++ i.providerErrors name uses

def warningsOf (name : Name) (uses : Uses α) : List Bytes :=
  if uses.consumers.keys = [] ∧ uses.providers.keys ≠ [] then
    [text i.kind ++ text " " ++ name ++ text s!" is {i.provide} by " ++ join uses.providers.keys
      ++ text s!" but {i.consume} by no process"]
  else []

def report (projects : List NamedProject) : SystemReport :=
  { errors := (i.collect projects).entries.flatMap fun entry => i.errorsOf entry.1 entry.2
    warnings := (i.collect projects).entries.flatMap fun entry => i.warningsOf entry.1 entry.2 }

end Interface

def validateSystem (projects : List NamedProject) : SystemReport :=
  { errors := (topics.report projects).errors ++ (services.report projects).errors
    warnings := (topics.report projects).warnings ++ (services.report projects).warnings }

end PuppetMaster.Configuration
