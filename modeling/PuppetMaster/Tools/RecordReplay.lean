/-
  PuppetMaster.Tools.RecordReplay — `record` and `replay` of the topic tool
  (puppet_master_topic.cpp).

  `record` declares its topics in the recording, then writes each message it reads, from
  whichever of its readers has one. `replay` reads the recording to its end, opens a writer
  for a topic at its first message, and publishes the messages of the topics that are wanted.
  What the transports do is the `Environment`'s; pacing and Ctrl+C are left out.

  `parameterOr` gives `replay` back what `recordedParameters` wrote of a topic, while its
  numbers have twelve digits at most.
-/

import PuppetMaster.Core.Decimal
import PuppetMaster.Core.Message
import PuppetMaster.Recording.RoundTrip
import PuppetMaster.Shm.Options

namespace PuppetMaster.Tools

open PuppetMaster.Core PuppetMaster.Lib PuppetMaster.Recording
open PuppetMaster.Shm (TopicOptions)

/-- What `record` and `replay` use of a topic. -/
structure TopicInfo where
  name : Bytes
  transport : TransportKind := .ipc
  descriptor : MessageDescriptor
  geometry : TopicOptions := {}
  delivery : DeliveryGuarantee := .bestEffort
  domain : UInt32 := 0
  deriving DecidableEq

structure Carried where
  sequence : Bool
  publishTime : Bool

def carriedBy (kind : TransportKind) : Carried := if kind = .ipc then ⟨true, true⟩ else ⟨false, false⟩

def parseNumber (value : Bytes) : Option Nat :=
  if value.isEmpty || 12 < value.length || !value.all isDigit then none else some (decimal value)

/-- Messages skipped before `sequence`, given the previous one seen. -/
def gap (last : Option UInt64) (sequence : UInt64) : UInt64 :=
  match last with
  | some last => if last + 1 < sequence then sequence - last - 1 else 0
  | none => 0

def deliveryText : DeliveryGuarantee → Bytes
  | .bestEffort => text "best_effort"
  | .reliable => text "reliable"

/-! ## Record -/

def recordedParameters (topic : TopicInfo) : Parameters :=
  if topic.transport = .fastDds then
    ((SortedMap.empty.insert (text "transport") (text "fastdds")).insert (text "domain_id") (toText topic.domain.toNat)).insert
      (text "delivery") (deliveryText topic.delivery)
  else
    (((SortedMap.empty.insert (text "transport") (text "shm")).insert (text "domain_id") (toText topic.domain.toNat)).insert
      (text "slot_payload_size") (toText topic.geometry.slotPayloadSize)).insert
      (text "slot_count") (toText topic.geometry.slotCount)

structure RecordedChannel where
  topic : TopicInfo
  id : UInt32
  last : Option UInt64 := none
  received : UInt64 := 0
  lost : UInt64 := 0

structure Recorder where
  writer : RecordingWriter
  channels : List RecordedChannel := []
  total : UInt64 := 0

def recordedTopic (topic : TopicInfo) : RecordedTopic :=
  { id := 0, name := topic.name, descriptor := topic.descriptor, parameters := recordedParameters topic }

/-- The loop that declares and subscribes; a reader that cannot be made ends the command. -/
def declareTopics (subscribe : TopicInfo → Result Unit) (recorder : Recorder) : List TopicInfo → Result Recorder
  | [] => .ok recorder
  | topic :: topics =>
    match recorder.writer.addTopic (recordedTopic topic) with
    | (.error status, _) => .error status
    | (.ok id, writer) => do
      subscribe topic
      declareTopics subscribe { recorder with writer, channels := recorder.channels ++ [{ topic, id }] } topics

def RecordedChannel.count (channel : RecordedChannel) (sequence : UInt64) : RecordedChannel :=
  let channel :=
    if (carriedBy channel.topic.transport).sequence then
      { channel with lost := channel.lost + gap channel.last sequence, last := some sequence }
    else channel
  { channel with received := channel.received + 1 }

/-- The publish time where the transport carries it, or else the arrival, from the start on. -/
def recordedTime (topic : TopicInfo) (started : Int) (metadata : Metadata) : Int :=
  let stamp := if (carriedBy topic.transport).publishTime then metadata.sourceTimestamp else metadata.receptionTimestamp
  max 0 (stamp - started)

/-- What the loop does in a turn: write a message that the reader of a channel returned, or flush. -/
inductive RecordTurn where
  | message (channel : Nat) (message : Message)
  | flush

def recordTurn (started : Int) (recorder : Recorder) : RecordTurn → Result Recorder
  | .flush => do
    let (status, writer) := recorder.writer.flush
    status.check
    return { recorder with writer }
  | .message index message =>
    match recorder.channels[index]? with
    | none => .ok recorder
    | some channel => do
      let sequence := UInt64.ofNat message.metadata.sequence
      let time := Int64.ofInt (recordedTime channel.topic started message.metadata)
      let (status, writer) := recorder.writer.write channel.id time sequence message.payload
      status.check
      return { writer, channels := recorder.channels.set index (channel.count sequence), total := recorder.total + 1 }

/-- The loop, until `count` messages are written (0: no limit) or the turns are over. -/
def recordTurns (started : Int) (count : UInt64) (recorder : Recorder) : List RecordTurn → Result Recorder
  | [] => .ok recorder
  | turn :: turns =>
    if count ≠ 0 ∧ count ≤ recorder.total then .ok recorder
    else do
      let recorder ← recordTurn started recorder turn
      recordTurns started count recorder turns

def record (subscribe : TopicInfo → Result Unit) (path : Bytes) (topics : List TopicInfo) (started : Int) (count : UInt64)
    (turns : List RecordTurn) : Result Recorder := do
  let recorder ← declareTopics subscribe { writer := .create path } topics
  let recorder ← recordTurns started count recorder turns
  let (status, writer) := recorder.writer.close
  status.check
  return { recorder with writer }

/-! ## Replay -/

/-- What a call of `Next` that returns a message uses of the recording. -/
theorem next_remaining {reader : RecordingReader} (h : reader.ended = false) : reader.next.2.remaining < reader.remaining := by
  induction hn : reader.remaining using Nat.strongRecOn generalizing reader with
  | ind n ih =>
    subst hn
    have hless := RecordingReader.turn_remaining h
    rcases hturn : reader.turn with ⟨result, next⟩
    rw [hturn] at hless
    cases result with
    | some result =>
      rw [RecordingReader.next_of_return h hturn]
      exact hless
    | none =>
      rw [RecordingReader.next_of_go_on h hturn]
      cases hended : next.ended with
      | true =>
        rw [RecordingReader.next, dif_pos hended]
        exact hless
      | false => exact Nat.lt_trans (ih _ hless hended rfl) hless

def parameterOr (topic : RecordedTopic) (key : Bytes) (fallback : Nat) : Nat :=
  ((topic.parameters.find? key).bind parseNumber).getD fallback

/-- The options of the command; `fastDds` says whether the tool was built with it. -/
structure ReplayArguments where
  topics : List Bytes := []
  domain : Option UInt32 := none
  fastDds : Bool := true

def ReplayArguments.wants (args : ReplayArguments) (name : Bytes) : Bool := args.topics.isEmpty || args.topics.contains name

def readable (args : ReplayArguments) (kind : TransportKind) : Bool := kind = .ipc || (args.fastDds && kind = .fastDds)

def kReadableTransports (args : ReplayArguments) : Bytes :=
  if args.fastDds then text "puppet_master_topic reads shared-memory and FastDDS topics only"
  else text "this puppet_master_topic was built without FastDDS and reads shared-memory topics only"

/-- The transport of a recorded topic, and what it needs of the topic. -/
def replayedKind (args : ReplayArguments) (recorded : RecordedTopic) (topic : TopicInfo) : Result TopicInfo :=
  let transport := (recorded.parameters.find? (text "transport")).getD (text "shm")
  if transport = text "fastdds" then
    let reliable := recorded.parameters.find? (text "delivery") = some (text "reliable")
    .ok { topic with transport := .fastDds, delivery := if reliable then .reliable else .bestEffort }
  else if transport = text "shm" then do
    let defaults : TopicOptions := {}
    let geometry : TopicOptions :=
      { slotPayloadSize := parameterOr recorded (text "slot_payload_size") defaults.slotPayloadSize
        slotCount := parameterOr recorded (text "slot_count") defaults.slotCount }
    geometry.validate.check
    return { topic with transport := .ipc, geometry }
  else .error (.error .unsupported
    (text "recorded from the " ++ transport ++ text " transport; " ++ kReadableTransports args))

def replayedTopic (args : ReplayArguments) (recorded : RecordedTopic) : Result TopicInfo := do
  let domain := parameterOr recorded (text "domain_id") 0
  refuse (0xffffffff < domain) (text "recorded domain_id is out of range")
  let topic ← replayedKind args recorded
    { name := recorded.name, descriptor := recorded.descriptor, domain := args.domain.getD (UInt32.ofNat domain) }
  if readable args topic.transport then .ok topic else .error (.error .unsupported (kReadableTransports args))

/-- What the transports answer: to a new writer, and to each message it publishes. -/
structure Environment where
  opens : TopicInfo → Status
  writes : TopicInfo → Bytes → Status

def openReplayChannel (environment : Environment) (args : ReplayArguments) (recorded : RecordedTopic) : Result TopicInfo :=
  within (text "replaying to " ++ recorded.name ++ text ": ") do
    let topic ← replayedTopic args recorded
    (validateName "topic name" recorded.name).check
    (environment.opens topic).check
    return topic

/-- By recorded topic id; none for a topic left out. `published` is what the writers took. -/
structure Replayer where
  channels : SortedMap Nat (Option TopicInfo) := .empty
  published : List (TopicInfo × Bytes) := []

/-- The channel of a message's topic, made at the topic's first message. -/
def channelOf (environment : Environment) (args : ReplayArguments) (reader : RecordingReader) (replayer : Replayer)
    (message : RecordedMessage) : Result (Option TopicInfo × Replayer) :=
  match replayer.channels.find? message.topic.toNat with
  | some channel => .ok (channel, replayer)
  | none =>
    match reader.findTopic message.topic with
    | none => .error (.error .internal [])
    | some topic => do
      let channel ←
        if args.wants topic.name then some <$> openReplayChannel environment args topic
        else Except.ok none
      return (channel, { replayer with channels := replayer.channels.insert message.topic.toNat channel })

def replayMessage (environment : Environment) (args : ReplayArguments) (reader : RecordingReader) (replayer : Replayer)
    (message : RecordedMessage) : Result Replayer := do
  let (channel, replayer) ← channelOf environment args reader replayer message
  match channel with
  | none => return replayer
  | some topic => do
    (within (text "replaying to " ++ topic.name ++ text ": ") (environment.writes topic message.payload).check)
    return { replayer with published := replayer.published ++ [(topic, message.payload)] }

/-- The loop, to the end of the recording. -/
def replayLoop (environment : Environment) (args : ReplayArguments) (reader : RecordingReader) (replayer : Replayer) :
    Result (RecordingReader × Replayer) :=
  match _hnext : reader.next with
  | (.error status, _) => .error status
  | (.ok none, reader) => .ok (reader, replayer)
  | (.ok (some message), next) =>
    match replayMessage environment args next replayer message with
    | .error status => .error status
    | .ok replayer => replayLoop environment args next replayer
termination_by reader.remaining
decreasing_by
  have hopen : reader.ended = false := by
    rw [← Bool.not_eq_true]
    intro hended
    rw [RecordingReader.next, dif_pos hended] at _hnext
    cases _hnext
  have hless := next_remaining hopen
  rwa [_hnext] at hless

structure Replayed where
  exitCode : Nat
  published : List (TopicInfo × Bytes)
  truncated : Bool

def replay (environment : Environment) (args : ReplayArguments) (path file : Bytes) : Result Replayed := do
  let reader ← RecordingReader.openFile path file
  let (reader, replayer) ← replayLoop environment args reader {}
  let known (name : Bytes) : Bool := reader.topics.any (·.name = name)
  return { exitCode := if args.topics.all known then 0 else 1, published := replayer.published, truncated := reader.truncated }

/-! ## A topic there and back -/

/-- A number that was written is read while it has twelve digits at most. -/
theorem parseNumber_toText (n : Nat) : parseNumber (toText n) = if n < 10 ^ 12 then some n else none := by
  obtain ⟨hne, hall, hvalue⟩ := toText_spec n
  have hlength := length_toText_le (n := n) (k := 12) (by decide)
  unfold parseNumber
  rw [List.isEmpty_eq_false_iff.mpr hne, hall, hvalue]
  by_cases hn : n < 10 ^ 12
  · have hshort : ¬ 12 < (toText n).length := Nat.not_lt.mpr (hlength.mpr hn)
    rw [if_pos hn]
    simp [hshort]
  · have hlong : 12 < (toText n).length := Nat.lt_of_not_le fun h => hn (hlength.mp h)
    rw [if_neg hn]
    simp [hlong]

/-- What `replay` makes of a topic: the part that its transport does not use is the default. -/
def TopicInfo.replayed (args : ReplayArguments) (topic : TopicInfo) : TopicInfo :=
  let topic := { topic with domain := args.domain.getD topic.domain }
  if topic.transport = .fastDds then { topic with geometry := {} } else { topic with delivery := .bestEffort }

section parameters

variable (topic : TopicInfo)

theorem find_fastDds (h : topic.transport = .fastDds) :
    (recordedParameters topic).find? (text "transport") = some (text "fastdds")
      ∧ (recordedParameters topic).find? (text "domain_id") = some (toText topic.domain.toNat)
      ∧ (recordedParameters topic).find? (text "delivery") = some (deliveryText topic.delivery) := by
  have htd : text "transport" ≠ text "domain_id" := by decide +kernel
  have htl : text "transport" ≠ text "delivery" := by decide +kernel
  have hdl : text "domain_id" ≠ text "delivery" := by decide +kernel
  rw [recordedParameters, if_pos h]
  simp [SortedMap.find?_insert, htd, htl, hdl]

theorem find_shm (h : topic.transport ≠ .fastDds) :
    (recordedParameters topic).find? (text "transport") = some (text "shm")
      ∧ (recordedParameters topic).find? (text "domain_id") = some (toText topic.domain.toNat)
      ∧ (recordedParameters topic).find? (text "slot_payload_size") = some (toText topic.geometry.slotPayloadSize)
      ∧ (recordedParameters topic).find? (text "slot_count") = some (toText topic.geometry.slotCount) := by
  have htd : text "transport" ≠ text "domain_id" := by decide +kernel
  have htp : text "transport" ≠ text "slot_payload_size" := by decide +kernel
  have htc : text "transport" ≠ text "slot_count" := by decide +kernel
  have hdp : text "domain_id" ≠ text "slot_payload_size" := by decide +kernel
  have hdc : text "domain_id" ≠ text "slot_count" := by decide +kernel
  have hpc : text "slot_payload_size" ≠ text "slot_count" := by decide +kernel
  rw [recordedParameters, if_neg h]
  simp [SortedMap.find?_insert, htd, htp, htc, hdp, hdc, hpc]

end parameters

theorem parameterOr_toText {topic : RecordedTopic} {key : Bytes} {n : Nat} (h : topic.parameters.find? key = some (toText n))
    (fallback : Nat) : parameterOr topic key fallback = if n < 10 ^ 12 then n else fallback := by
  rw [parameterOr, h, Option.bind_some, parseNumber_toText]
  split <;> rfl

theorem domain_small (domain : UInt32) : domain.toNat < 10 ^ 12 :=
  Nat.lt_trans domain.toNat_lt (by decide)

/-- A recorded topic that reads as this one's. -/
structure Records (topic : TopicInfo) (recorded : RecordedTopic) : Prop where
  name : recorded.name = topic.name
  descriptor : recorded.descriptor = topic.descriptor
  parameters : recorded.parameters = recordedParameters topic

variable {args : ReplayArguments} {topic : TopicInfo} {recorded : RecordedTopic}

theorem Records.domain (h : Records topic recorded) : parameterOr recorded (text "domain_id") 0 = topic.domain.toNat := by
  have hfind : recorded.parameters.find? (text "domain_id") = some (toText topic.domain.toNat) := by
    rw [h.parameters]
    by_cases hkind : topic.transport = .fastDds
    · exact (find_fastDds topic hkind).2.1
    · exact (find_shm topic hkind).2.1
  rw [parameterOr_toText hfind, if_pos (domain_small _)]

theorem Records.replayedTopic (h : Records topic recorded) :
    replayedTopic args recorded = (do
      let topic ← replayedKind args recorded
        { name := topic.name, descriptor := topic.descriptor, domain := args.domain.getD topic.domain }
      if readable args topic.transport then .ok topic else .error (.error .unsupported (kReadableTransports args))) := by
  have hrange : ¬ 0xffffffff < topic.domain.toNat := Nat.not_lt.mpr (Nat.le_of_lt_succ topic.domain.toNat_lt)
  rw [Tools.replayedTopic, h.domain, h.name, h.descriptor, refuse, if_neg hrange, UInt32.ofNat_toNat]
  rfl

theorem Records.replayedTopic_fastDds (h : Records topic recorded) (hkind : topic.transport = .fastDds)
    (hbuilt : args.fastDds = true) : Tools.replayedTopic args recorded = .ok (topic.replayed args) := by
  obtain ⟨htransport, -, hdelivery⟩ := find_fastDds topic hkind
  rw [← h.parameters] at htransport hdelivery
  have hreliable : (if deliveryText topic.delivery = text "reliable" then DeliveryGuarantee.reliable else .bestEffort) =
      topic.delivery := by
    cases topic.delivery
    · exact if_neg (by decide +kernel)
    · exact if_pos rfl
  have hreplayed : topic.replayed args =
      { name := topic.name, transport := .fastDds, descriptor := topic.descriptor, delivery := topic.delivery,
        domain := args.domain.getD topic.domain } := by
    simp [TopicInfo.replayed, hkind]
  rw [h.replayedTopic, replayedKind]
  simp only [htransport, hdelivery, Option.getD_some, if_true, Option.some.injEq, hreliable, hreplayed]
  simp [readable, hbuilt, bind, Except.bind]

theorem slotCount_small {geometry : TopicOptions} (h : geometry.validate.isOk = true) : geometry.slotCount < 10 ^ 12 := by
  unfold TopicOptions.validate at h
  repeat' split at h
  all_goals first | omega | cases h

/-- A shared-memory topic comes back as it was exactly when its slots are below a terabyte;
a larger one comes back with the default size. -/
theorem Records.replayedTopic_shm (h : Records topic recorded) (hkind : topic.transport = .ipc)
    (hgeometry : topic.geometry.validate.isOk = true) :
    Tools.replayedTopic args recorded = .ok (topic.replayed args) ↔ topic.geometry.slotPayloadSize < 10 ^ 12 := by
  obtain ⟨htransport, -, hpayload, hcount⟩ := find_shm topic (by rw [hkind]; decide)
  rw [← h.parameters] at htransport hpayload hcount
  have hother : text "shm" ≠ text "fastdds" := by decide +kernel
  have hreplayed : topic.replayed args =
      { name := topic.name, transport := .ipc, descriptor := topic.descriptor, geometry := topic.geometry,
        domain := args.domain.getD topic.domain } := by
    simp [TopicInfo.replayed, hkind]
  rw [h.replayedTopic, replayedKind]
  simp only [htransport, Option.getD_some, if_neg hother, if_true, parameterOr_toText hpayload, parameterOr_toText hcount,
    if_pos (slotCount_small hgeometry), hreplayed]
  by_cases hsize : topic.geometry.slotPayloadSize < 10 ^ 12
  · rw [if_pos hsize]
    refine ⟨fun _ => hsize, fun _ => ?_⟩
    simp [Status.check, hgeometry, readable, bind, Except.bind, pure, Except.pure]
  · rw [if_neg hsize]
    refine ⟨fun heq => ?_, fun hsmall => absurd hsmall hsize⟩
    obtain ⟨replayed, hreplayed, hreadable⟩ := bind_eq_ok.mp heq
    obtain ⟨-, hpure⟩ := then_eq_ok.mp hreplayed
    obtain rfl := pure_eq_ok.mp hpure
    split at hreadable
    · have hslots := congrArg (·.geometry.slotPayloadSize) (Except.ok.inj hreadable)
      have hdefault : (64 * 1024 : Nat) = topic.geometry.slotPayloadSize := hslots
      omega
    · cases hreadable

end PuppetMaster.Tools
