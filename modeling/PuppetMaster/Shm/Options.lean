/-
  PuppetMaster.Shm.Options — `shm::Options` and `OptionsFromProject` (shm_transport.cpp).

  The shared-memory settings of a project are those of its ipc topics, then of its ipc
  services. Each entry starts from the options as the entries before it left them. A
  service's settings apply to its request, reply and presence topics by name and to the
  reply topics of its clients by what their names start with.
-/

import PuppetMaster.Configuration.Project
import PuppetMaster.Lib.Nearest
import PuppetMaster.Shm.Open

namespace PuppetMaster.Shm

open PuppetMaster.Core PuppetMaster.Lib PuppetMaster.Scheduler PuppetMaster.Configuration

structure TopicOptions where
  slotPayloadSize : Nat := 64 * 1024
  slotCount : Nat := 16
  deriving DecidableEq

def TopicOptions.validate (options : TopicOptions) : Status :=
  if options.slotPayloadSize = 0 then
    .error .invalidArgument (text "shm slot_payload_size must be greater than zero")
  else if options.slotCount = 0 then .error .invalidArgument (text "shm slot_count must be greater than zero")
  else if Open.segmentSize ⟨options.slotPayloadSize, options.slotCount⟩ = 0 ∨ 2 ^ 32 - 1 < options.slotCount then
    .error .invalidArgument (text "shm topic geometry is too large")
  else .ok

structure Options where
  domainId : Nat := 0
  defaultTopic : TopicOptions := {}
  topics : SortedMap Name TopicOptions := .empty
  topicPrefixes : SortedMap Name TopicOptions := .empty
  waitPollInterval : Int := 50000000

namespace Options

/-- The check of one entry; its error names what the entry is for. -/
def validateEntry (what : String) (entry : Name × TopicOptions) : Result Unit :=
  let status := entry.2.validate
  if status.isOk then .ok ()
  else invalidArgument (status.message ++ text " (" ++ text what ++ text " " ++ entry.1 ++ text ")")

def validate (options : Options) : Result Unit := do
  options.defaultTopic.validate.check
  options.topics.entries.forM (validateEntry "topic")
  options.topicPrefixes.entries.forM (validateEntry "topics under")
  refuse (options.waitPollInterval ≤ 0) (text "shm wait_poll_interval must be greater than zero")

def forTopic (options : Options) (topic : Name) : TopicOptions :=
  match options.topics.find? topic with
  | some found => found
  | none => nearest topic options.defaultTopic options.topicPrefixes.entries

end Options

/-! ## Entries -/

/-- `Entry`; its topics are `front` and `others`, and `under` is its `prefix`, which may be empty. -/
structure Entry where
  label : Bytes
  front : Name
  others : List Name
  parameters : ParameterMap
  under : Name

def requestTopic (service : ServiceConfig) : Name := service.name ++ text "/request"

def replyTopic (service : ServiceConfig) : Name := service.name ++ text "/reply"

def presenceTopic (service : ServiceConfig) : Name := service.name ++ text "/presence"

/-- What the names of the clients' reply topics start with. -/
def replies (service : ServiceConfig) : Name := service.name ++ text "/reply/"

def topicEntry (topic : TopicConfig) : Entry :=
  ⟨text "topic " ++ topic.name, topic.name, [], topic.transportParameters, []⟩

def serviceEntry (service : ServiceConfig) : Entry :=
  ⟨text "service " ++ service.name, requestTopic service, [replyTopic service, presenceTopic service],
    service.transportParameters, replies service⟩

def topicHasSettings (topic : TopicConfig) : Bool := topic.transport = .ipc && topic.transportParameters.entries ≠ []

def serviceHasSettings (service : ServiceConfig) : Bool :=
  service.transport = .ipc && service.transportParameters.entries ≠ []

def entriesOf (project : ProjectConfig) : List Entry :=
  (project.topics.filter topicHasSettings).map topicEntry ++
    (project.services.filter serviceHasSettings).map serviceEntry

/-! ## The options of a project -/

/-- The options so far, and whether an entry has set the domain. -/
structure Applied where
  base : Options
  domainSet : Bool

def checkKey (key : Bytes) : Result Unit :=
  refuse (key ≠ text "slot_payload_size" ∧ key ≠ text "slot_count" ∧ key ≠ text "domain_id")
    (text "unknown parameter " ++ key ++ text "; expected slot_payload_size, slot_count, or domain_id")

def setDomain (state : Applied) (parameters : ParameterMap) : Result Applied := do
  let domain ← getParameter parameters "domain_id" (2 ^ 32 - 1) state.base.domainId
  if parameters.has "domain_id" then
    refuse (state.domainSet ∧ domain ≠ state.base.domainId)
      (text s!"domain_id {domain} differs from {state.base.domainId} set on another topic; one transport has one domain")
    return ⟨{ state.base with domainId := domain }, true⟩
  else return state

/-- A setting of the ring is there. -/
def Sized (parameters : ParameterMap) : Bool := parameters.has "slot_payload_size" || parameters.has "slot_count"

def setRing (base : Options) (entry : Entry) (geometry : TopicOptions) : Options :=
  { base with
    topics := (entry.front :: entry.others).foldl (fun topics topic => topics.insert topic geometry) base.topics
    topicPrefixes := if entry.under = [] then base.topicPrefixes else base.topicPrefixes.insert entry.under geometry }

def setGeometry (base : Options) (entry : Entry) : Result Options := do
  if Sized entry.parameters then
    let geometry := base.forTopic entry.front
    let payload ← getParameter entry.parameters "slot_payload_size" Open.sizeMax geometry.slotPayloadSize
    let slots ← getParameter entry.parameters "slot_count" Open.sizeMax geometry.slotCount
    let geometry : TopicOptions := ⟨payload, slots⟩
    geometry.validate.check
    return setRing base entry geometry
  else return base

def applyEntry (state : Applied) (entry : Entry) : Result Applied :=
  within (text "shm settings of " ++ entry.label ++ text ": ") do
    entry.parameters.keys.forM checkKey
    let state ← setDomain state entry.parameters
    let base ← setGeometry state.base entry
    return { state with base }

def optionsFromProject (project : ProjectConfig) (base : Options) : Result Options := do
  let state ← (entriesOf project).foldlM applyEntry ⟨base, false⟩
  state.base.validate
  return state.base

end PuppetMaster.Shm
