/-
  PuppetMaster.Transport.FastDds — the FastDDS transport (fastdds_transport.cpp, options.h,
  policy_mapping.h): its check of an endpoint, and the life of what it makes in DDS.

  A state is what a reader or a writer shares with the transport. Its `Shutdown` is run by
  the destructor of the handle and by the transport's `Close`, at the same time or not. For a
  reader it has three sections: the shutdown mutex, the section that takes the pointers out,
  and the deletion, which waits for a listener of the reader that is running. For a writer it
  is one section. An operation holds the entity mutex (of a writer: its mutex) while it uses
  the entity. A listener call ends when its callback does; a callback may wait for the transport
  or for the destructor of its reader (`waits`). How the threads of one reader wait for each other
  is in `PuppetMaster.Transport.FastDdsReads`.

  What is assumed of DDS, and is in the steps: a topic that an entity uses is not deleted;
  `delete_datareader` waits for a listener of that reader that is running, and neither it nor
  `delete_datawriter` fails; a reader has one listener call at a time. A create may fail, and what
  DDS refuses besides is the environment's `Answers`.
-/

import Mathlib.Algebra.Group.Nat.Defs
import PuppetMaster.Core.Endpoint
import PuppetMaster.Lib.Run

namespace PuppetMaster.FastDds

open PuppetMaster.Core PuppetMaster.Lib

/-! ## Options and quality of service -/

inductive TransportMode where
  | default
  | udp
  | sharedMemory
  | hybrid
  deriving DecidableEq, Repr

inductive ReliabilityKind where
  | bestEffort
  | reliable
  deriving DecidableEq, Repr

inductive HistoryKind where
  | keepLast
  | keepAll
  deriving DecidableEq, Repr

inductive DurabilityKind where
  | volatile
  | transientLocal
  deriving DecidableEq, Repr

structure QosProfile where
  reliability : ReliabilityKind := .bestEffort
  history : HistoryKind := .keepLast
  historyDepth : Nat := 1
  durability : DurabilityKind := .volatile
  deriving DecidableEq, Repr

def QosProfile.validate (qos : QosProfile) : Status :=
  if qos.history = .keepLast ∧ (qos.historyDepth = 0 ∨ 2 ^ 31 - 1 < qos.historyDepth) then
    .error .invalidArgument (text "FastDDS history_depth must fit a positive int32")
  else .ok

structure Options where
  domainId : UInt32 := 0
  participantName : Bytes := text "PuppetMasterFastDDS"
  transportMode : TransportMode := .default
  durability : DurabilityKind := .volatile
  dataSharing : Bool := false
  asyncPublish : Bool := true
  udpBufferSize : Nat := 16 * 1024 * 1024
  shmSegmentSize : Nat := 160 * 1024 * 1024
  deriving DecidableEq

def Options.validate (options : Options) : Status :=
  if options.participantName.isEmpty then .error .invalidArgument (text "FastDDS participant_name must not be empty")
  else if (options.transportMode = .udp ∨ options.transportMode = .hybrid) ∧ options.udpBufferSize = 0 then
    .error .invalidArgument (text "FastDDS udp_buffer_size must be greater than zero")
  else if (options.transportMode = .sharedMemory ∨ options.transportMode = .hybrid) ∧ options.shmSegmentSize = 0 then
    .error .invalidArgument (text "FastDDS shm_segment_size must be greater than zero")
  else if options.dataSharing then
    .error .unsupported (text "FastDDS data-sharing is unsupported for unbounded byte payloads")
  else .ok

def mapMessagePolicy (policy : MessagePolicy) (durability : DurabilityKind) : Result QosProfile := do
  policy.validate.check
  if policy.overflow ≠ .dropOldest then
    .error (.error .unsupported (text "FastDDS supports only drop-oldest reader history overflow"))
  let qos : QosProfile :=
    { durability
      historyDepth := if policy.freshness = .latest then 1 else policy.queueDepth
      reliability := match policy.delivery with
        | .bestEffort => .bestEffort
        | .reliable => .reliable
      history := match policy.freshness with
        | .latest => .keepLast
        | .queued => if policy.retention = .keepAll then .keepAll else .keepLast }
  qos.validate.check
  return qos

def mapWriterMessagePolicy (policy : MessagePolicy) (durability : DurabilityKind) : Result QosProfile :=
  mapMessagePolicy { policy with freshness := .queued } durability

/-- The history policy of a DDS entity. -/
inductive DdsHistory where
  | keepAll
  | keepLast (depth : Int32)
  deriving DecidableEq

structure EndpointQos where
  reliability : ReliabilityKind
  history : DdsHistory
  durability : DurabilityKind
  deriving DecidableEq

def applyEndpointQos (profile : QosProfile) : EndpointQos :=
  { reliability := profile.reliability
    history := match profile.history with
      | .keepAll => .keepAll
      | .keepLast => .keepLast (Int32.ofNat profile.historyDepth)
    durability := profile.durability }

def Result.status {α : Type} : Result α → Status
  | .ok _ => .ok
  | .error status => status

def validateEndpoint (options : Options) (endpoint : EndpointConfig) : Status :=
  let status := endpoint.validate
  if !status.isOk then status
  else if endpoint.topic.transport ≠ .fastDds then
    .error .invalidArgument (text "endpoint topic is not bound to the FastDDS transport")
  else
    let status := Result.status (mapMessagePolicy endpoint.topic.messagePolicy options.durability)
    if !status.isOk then status
    else Result.status (mapWriterMessagePolicy endpoint.topic.messagePolicy options.durability)

/-! ## States -/

inductive EndpointKind where
  | reader
  | writer
  deriving DecidableEq, Repr

/-- A call of `Shutdown`: not yet called; with the shutdown mutex; with the pointers it took out,
which are null if another call took them; returned. -/
inductive ShutdownPc where
  | idle
  | locked
  | detached (owns : Bool)
  | finished
  deriving DecidableEq, Repr

def ShutdownPc.holdsMutex : ShutdownPc → Bool
  | .locked => true
  | .detached _ => true
  | _ => false

/-- What a data callback may wait in: `Open` or `Close` of the transport, for `lifecycle_mutex`, or the
destructor of its own reader. -/
inductive CallbackWait where
  | lifecycle
  | destructor
  deriving DecidableEq, Repr

/-- `ReaderState` or `WriterState`. -/
structure EndpointState where
  kind : EndpointKind
  topic : Bytes
  message : MessageDescriptor
  qos : EndpointQos
  /-- The `DataReader` or `DataWriter` is there in DDS. -/
  inDds : Bool := true
  /-- The pointers to it are set. -/
  attached : Bool := true
  /-- An operation holds the entity mutex. -/
  used : Bool := false
  /-- A listener call is in flight. -/
  listening : Bool := false
  /-- Its callback waits. -/
  waiting : Option CallbackWait := none
  /-- The destructor's call. -/
  destructor : ShutdownPc := .idle
  /-- The handle's reference is gone: `weak.lock()` is null. -/
  released : Bool := false
  deriving DecidableEq

/-- The next section of a `Shutdown` of this state; `other` is a call that may run at the same time. -/
def EndpointState.shutdown (e : EndpointState) (pc other : ShutdownPc) : Option (EndpointState × ShutdownPc) :=
  match e.kind, pc with
  | .writer, .idle =>
    if e.used then none else some ({ e with inDds := e.inDds && !e.attached, attached := false }, .finished)
  | .reader, .idle => if other.holdsMutex then none else some (e, .locked)
  | .reader, .locked => if e.used then none else some ({ e with attached := false }, .detached e.attached)
  | .reader, .detached owns =>
    if owns && e.listening then none else some ({ e with inDds := e.inDds && !owns }, .finished)
  | _, _ => none

/-! ## The transport -/

/-- `Close`: not running, or shutting down what is left of its list; the call for the first. -/
inductive CloserPc where
  | idle
  | shutting (todo : List Nat) (pc : ShutdownPc)
  deriving DecidableEq, Repr

structure FastDdsTransport where
  options : Options := {}
  /-- The participant, its publisher and its subscriber are there. -/
  participant : Bool := false
  closing : Bool := false
  topics : List (Bytes × MessageDescriptor) := []
  registeredTypes : List Bytes := []
  readers : List Nat := []
  writers : List Nat := []
  closer : CloserPc := .idle
  states : List EndpointState := []
  /-- The topics of the participant in DDS. -/
  ddsTopics : List Bytes := []
  deriving DecidableEq

/-- How DDS and the type system of the participant answer. -/
structure Answers where
  deletesTopic : Bytes → Bool := fun _ => true
  registersType : Bool := true
  createsTopic : Bool := true
  createsEntity : Bool := true

namespace FastDdsTransport

def isOpen (t : FastDdsTransport) : Bool := t.participant && !t.closing

def entityUses (t : FastDdsTransport) (topic : Bytes) : Bool := t.states.any fun e => e.inDds && e.topic = topic

/-- `delete_topic`: refused while an entity uses the topic. -/
def deleteTopic (t : FastDdsTransport) (answers : Answers) (topic : Bytes) : Bool :=
  !t.entityUses topic && answers.deletesTopic topic

def expired (t : FastDdsTransport) (state : Nat) : Bool :=
  match t.states[state]? with
  | some e => e.released
  | none => true

def prune (t : FastDdsTransport) (states : List Nat) : List Nat := states.filter fun state => !t.expired state

def stateUses (t : FastDdsTransport) (states : List Nat) (topic : Bytes) : Bool :=
  states.any fun state => match t.states[state]? with
    | some e => e.topic = topic
    | none => false

/-- No state uses the topic, and DDS deletes it. -/
def sweeps (t : FastDdsTransport) (answers : Answers) (topic : Bytes) : Bool :=
  !t.stateUses (t.readers ++ t.writers) topic && t.deleteTopic answers topic

def sweepTopics (t : FastDdsTransport) (answers : Answers) : FastDdsTransport :=
  let t := { t with readers := t.prune t.readers, writers := t.prune t.writers }
  { t with
    topics := t.topics.filter fun entry => !t.sweeps answers entry.1
    ddsTopics := t.ddsTopics.filter fun topic => !(t.topics.any (·.1 = topic) && t.sweeps answers topic) }

def findTopic (t : FastDdsTransport) (topic : Bytes) : Option MessageDescriptor :=
  (t.topics.find? fun entry => entry.1 = topic).map (·.2)

def ensureTopic (t : FastDdsTransport) (answers : Answers) (endpoint : EndpointConfig) : Result Unit × FastDdsTransport :=
  let topicName := endpoint.topic.name
  let typeName := endpoint.message.typeName
  let t := t.sweepTopics answers
  match t.findTopic topicName with
  | some message =>
    if message ≠ endpoint.message then
      (.error (.error .invalidArgument (text "topic " ++ topicName ++ text " carries " ++ message.toText ++ text ", not "
        ++ endpoint.message.toText)), t)
    else (.ok (), t)
  | none =>
    let registered := t.registeredTypes.contains typeName
    if !registered && !answers.registersType then
      (.error (.error .unavailable (text "failed to register FastDDS type " ++ typeName)), t)
    else
      let t := { t with registeredTypes := if registered then t.registeredTypes else typeName :: t.registeredTypes }
      if !answers.createsTopic then (.error (.error .unavailable (text "failed to create FastDDS topic " ++ topicName)), t)
      else (.ok (), { t with topics := t.topics ++ [(topicName, endpoint.message)], ddsTopics := t.ddsTopics ++ [topicName] })

def notOpen (kind : EndpointKind) : Status :=
  .error .failedPrecondition (match kind with
    | .reader => text "FastDDS transport must be open before creating readers"
    | .writer => text "FastDDS transport must be open before creating writers")

def notCreated (kind : EndpointKind) (topic : Bytes) : Status :=
  .error .unavailable (match kind with
    | .reader => text "failed to create FastDDS DataReader for " ++ topic
    | .writer => text "failed to create FastDDS DataWriter for " ++ topic)

def profileOf (t : FastDdsTransport) (kind : EndpointKind) (policy : MessagePolicy) : Result QosProfile :=
  match kind with
  | .reader => mapMessagePolicy policy t.options.durability
  | .writer => mapWriterMessagePolicy policy t.options.durability

/-- The state goes into the list of its kind. -/
def addState (t : FastDdsTransport) (e : EndpointState) : FastDdsTransport :=
  let state := t.states.length
  let t : FastDdsTransport := { t with states := t.states ++ [e] }
  match e.kind with
  | .reader => { t with readers := t.prune t.readers ++ [state] }
  | .writer => { t with writers := t.prune t.writers ++ [state] }

/-- `CreateReader` and `CreateWriter`, from the check of the endpoint to the end of the section
under the mutex. -/
def create (t : FastDdsTransport) (kind : EndpointKind) (answers : Answers) (endpoint : EndpointConfig) :
    Result Nat × FastDdsTransport :=
  let status := validateEndpoint t.options endpoint
  if !status.isOk then (.error status, t)
  else if !t.isOpen then (.error (notOpen kind), t)
  else
    match t.profileOf kind endpoint.topic.messagePolicy with
    | .error status => (.error status, t)
    | .ok profile =>
      match t.ensureTopic answers endpoint with
      | (.error status, t) => (.error status, t)
      | (.ok (), t) =>
        if !answers.createsEntity then (.error (notCreated kind endpoint.topic.name), t)
        else
          (.ok t.states.length, t.addState
            { kind, topic := endpoint.topic.name, message := endpoint.message, qos := applyEndpointQos profile })

/-- `Open`; `creates`: the participant, the publisher and the subscriber came to be. -/
def openTransport (t : FastDdsTransport) (creates : Bool) : Result Unit × FastDdsTransport :=
  let status := t.options.validate
  if !status.isOk then (.error status, t)
  else if t.participant then (.ok (), t)
  else if !creates then (.error (.error .unavailable (text "failed to create FastDDS DomainParticipant")), t)
  else (.ok (), { t with participant := true })

/-- The last section of `Close`. A topic that an entity still uses would stay in DDS. -/
def finishClose (t : FastDdsTransport) : FastDdsTransport :=
  { t with
    topics := []
    registeredTypes := []
    ddsTopics := t.ddsTopics.filter fun topic => t.entityUses topic || !t.topics.any (·.1 = topic)
    participant := false
    closing := false
    closer := .idle }

def setState (t : FastDdsTransport) (state : Nat) (e : EndpointState) : FastDdsTransport :=
  { t with states := t.states.set state e }

/-- The call of `Close`'s that is at this state. -/
def closerPc (t : FastDdsTransport) (state : Nat) : ShutdownPc :=
  match t.closer with
  | .shutting (first :: _) pc => if first = state then pc else .idle
  | _ => .idle

end FastDdsTransport

inductive Move where
  | opens (creates : Bool)
  | creates (kind : EndpointKind) (answers : Answers) (endpoint : EndpointConfig)
  /-- An operation of the handle begins, or ends. -/
  | uses (state : Nat)
  | used (state : Nat)
  /-- DDS calls the listener of a reader, or the call ends. -/
  | hears (state : Nat)
  | heard (state : Nat)
  /-- The callback of that call waits, or goes on. -/
  | waits (state : Nat) (on : CallbackWait)
  | goesOn (state : Nat)
  /-- A section of the destructor, and the reference it gives up behind them. -/
  | destroys (state : Nat)
  | releases (state : Nat)
  /-- `Close` takes the lists, runs a section of the first state's `Shutdown` or goes past a state
  that is gone, and finishes. -/
  | closes
  | shuts
  | closed

open FastDdsTransport in
def FastDdsTransport.step (t : FastDdsTransport) : Move → Option FastDdsTransport
  | .opens creates => if t.closer = .idle then some (t.openTransport creates).2 else none
  | .creates kind answers endpoint => some (t.create kind answers endpoint).2
  | .uses state => do
    let e ← t.states[state]?
    -- an operation on a closed handle returns without the entity
    if e.destructor = .idle ∧ e.attached ∧ !e.used then some (t.setState state { e with used := true }) else none
  | .used state => do
    let e ← t.states[state]?
    if e.used then some (t.setState state { e with used := false }) else none
  | .hears state => do
    let e ← t.states[state]?
    if e.kind = .reader ∧ e.inDds ∧ !e.listening then some (t.setState state { e with listening := true }) else none
  | .heard state => do
    let e ← t.states[state]?
    if e.listening ∧ e.waiting = none then some (t.setState state { e with listening := false }) else none
  | .waits state on => do
    let e ← t.states[state]?
    if e.listening ∧ e.waiting = none then some (t.setState state { e with waiting := some on }) else none
  | .goesOn state => do
    let e ← t.states[state]?
    if e.waiting = some .lifecycle ∧ t.closer = .idle ∨ e.waiting = some .destructor ∧ e.destructor = .finished then
      some (t.setState state { e with waiting := none })
    else none
  | .destroys state => do
    let e ← t.states[state]?
    let (e, pc) ← e.shutdown e.destructor (t.closerPc state)
    return t.setState state { e with destructor := pc }
  | .releases state => do
    let e ← t.states[state]?
    if e.destructor = .finished then some (t.setState state { e with released := true }) else none
  | .closes =>
    if t.closer = .idle ∧ t.participant then
      some { t with closing := true, readers := [], writers := [], closer := .shutting (t.readers ++ t.writers) .idle }
    else none
  | .shuts =>
    match t.closer with
    | .shutting (state :: todo) pc =>
      match t.states[state]? with
      | none => some { t with closer := .shutting todo .idle }
      | some e =>
        if pc = .idle ∧ e.released then some { t with closer := .shutting todo .idle }
        else
          (e.shutdown pc e.destructor).map fun (e, pc) =>
            { t.setState state e with closer := if pc = .finished then .shutting todo .idle else .shutting (state :: todo) pc }
    | _ => none
  | .closed =>
    match t.closer with
    | .shutting [] _ => some t.finishClose
    | _ => none

/-- A transport that was just made. -/
def FastDdsTransport.Fresh (t : FastDdsTransport) : Prop := ∃ options : Options, t = { options }

def FastDdsTransport.Reached : FastDdsTransport → Prop := Reach FastDdsTransport.step anyMove FastDdsTransport.Fresh

end PuppetMaster.FastDds