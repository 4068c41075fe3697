/-
  PuppetMaster.Transport.Local — one topic of each local backend, with one call at a time.

  A caller creates readers, writes, reads without waiting and asks for pending counts.
  `InMemoryTopic` answers as `TopicChannel` and `InMemoryReader` do, `ShmTopic` as
  `TopicState`, `ShmReader` and the segment's ring do; both stay open, and nothing else
  runs. A `Reply` is what the two have in common: the code of a status, the payload,
  sequence and source timestamp of a message, a count.
-/

import PuppetMaster.InMemory.Mailbox
import PuppetMaster.Shm.Segment

namespace PuppetMaster.Transport

open PuppetMaster.Core PuppetMaster.InMemory PuppetMaster.Shm

/-- `now` is what the clock says during the call. -/
inductive Call where
  | createReader (policy : MessagePolicy)
  | write (payload : Bytes) (sourceTimestamp now : Int)
  | read (reader : Nat)
  | pendingMessageCount (reader : Nat)
  deriving DecidableEq

inductive Reply where
  | status (code : StatusCode)
  | message (payload : Bytes) (sequence : Nat) (sourceTimestamp : Int)
  | count (messages : Nat)
  | noReader
  deriving DecidableEq

def Reply.ofMessage (message : Message) : Reply :=
  .message message.payload message.metadata.sequence message.metadata.sourceTimestamp

def Reply.ofRead : Result Message → Reply
  | .ok received => .ofMessage received
  | .error failure => .status failure.code

/-! ## In memory -/

/-- The channel and the mailboxes of its readers, in the order they were added. -/
structure InMemoryTopic where
  nextSequence : Nat := 1
  mailboxes : List Mailbox := []

namespace InMemoryTopic

/-- The pushes of one publish; `none` when one of them blocks. -/
def pushAll (message : Message) : List Mailbox → Status → Option (Status × List Mailbox)
  | [], result => some (result, [])
  | mailbox :: rest, result =>
    (mailbox.push message false).bind fun pushed =>
      (pushAll message rest (if result.isOk && !pushed.1.isOk then pushed.1 else result)).map fun after =>
        (after.1, pushed.2 :: after.2)

def publish (topic : InMemoryTopic) (payload : Bytes) (sourceTimestamp now : Int) : Option (Status × InMemoryTopic) :=
  let message : Message :=
    ⟨payload, ⟨topic.nextSequence, if sourceTimestamp = 0 then now else sourceTimestamp, now⟩⟩
  (pushAll message topic.mailboxes .ok).map fun after =>
    (after.1, { nextSequence := u64 (topic.nextSequence + 1), mailboxes := after.2 })

def step (topic : InMemoryTopic) : Call → Option (Reply × InMemoryTopic)
  | .createReader policy =>
    if policy.validate.isOk then
      some (.status .ok, { topic with mailboxes := topic.mailboxes ++ [.fresh policy] })
    else some (.status policy.validate.code, topic)
  | .write payload sourceTimestamp now =>
    (topic.publish payload sourceTimestamp now).map fun published => (.status published.1.code, published.2)
  | .read reader =>
    match topic.mailboxes[reader]? with
    | none => some (.noReader, topic)
    | some mailbox =>
      some (.ofRead mailbox.read.1, { topic with mailboxes := topic.mailboxes.set reader mailbox.read.2 })
  | .pendingMessageCount reader =>
    match topic.mailboxes[reader]? with
    | none => some (.noReader, topic)
    | some mailbox => some (.count mailbox.messages.length, topic)

end InMemoryTopic

/-! ## Shared memory -/

/-- The cursor and depth of `ReaderState`. -/
structure ReaderState where
  cursor : Nat
  depth : Nat

structure ShmTopic where
  name : Bytes
  ring : Ring := .fresh
  readers : List ReaderState := []

def readerDepth (policy : MessagePolicy) : Nat := if policy.freshness = .latest then 1 else policy.queueDepth

namespace ShmTopic

variable (g : Geometry)

/-- The checks of `ShmTransport::ValidateEndpoint` on the policy. -/
def validatePolicy (topic : ShmTopic) (policy : MessagePolicy) : Status :=
  if !policy.validate.isOk then policy.validate
  else if policy.freshness = .queued ∧ policy.retention = .keepAll then
    .error .unsupported (text "shm transport cannot keep all messages in a fixed ring")
  else if policy.overflow ≠ .dropOldest then
    .error .unsupported (text "shm transport supports only drop-oldest overflow")
  else if g.slotCount < readerDepth policy then
    .error .invalidArgument
      (text s!"shm queue_depth {policy.queueDepth} exceeds slot_count {g.slotCount} for topic " ++ topic.name)
  else .ok

/-- `Read` without waiting. -/
def tryReadFrom (ring : Ring) (reader : ReaderState) : Result Message × ReaderState :=
  match tryRead g ring reader.cursor reader.depth with
  | (_, cursor, some message) => (.ok message, { reader with cursor := cursor })
  | (_, cursor, none) => (.error (.error .unavailable (text "no shm message available")), { reader with cursor := cursor })

def step (topic : ShmTopic) : Call → Option (Reply × ShmTopic)
  | .createReader policy =>
    let status := topic.validatePolicy g policy
    if status.isOk then
      let reader : ReaderState := ⟨u64 (topic.ring.writeSeq + 1), readerDepth policy⟩
      some (.status .ok, { topic with readers := topic.readers ++ [reader] })
    else some (.status status.code, topic)
  | .write payload sourceTimestamp now =>
    -- nobody holds the writer lock
    match Shm.publish g topic.ring (.ok false) payload (if sourceTimestamp = 0 then now else sourceTimestamp) with
    | (.ok _, ring) => some (.status .ok, { topic with ring := ring })
    | (.error status, ring) => some (.status status.code, { topic with ring := ring })
  | .read reader =>
    match topic.readers[reader]? with
    | none => some (.noReader, topic)
    | some state =>
      let (result, state') := tryReadFrom g topic.ring state
      some (.ofRead result, { topic with readers := topic.readers.set reader state' })
  | .pendingMessageCount reader =>
    match topic.readers[reader]? with
    | none => some (.noReader, topic)
    | some state => some (.count (pending g topic.ring state.cursor state.depth), topic)

end ShmTopic

end PuppetMaster.Transport
