/-
  PuppetMaster.InMemory.ReaderOwned — one reader-owned topic of the in-memory transport, one
  call at a time (`GetOrCreateChannel`, `AddReader`, `Publish`).

  Readers, writers and channels are numbered as they are created. A weak reference has
  expired when what owns its target is destroyed: a mailbox with its reader, a channel with
  its last reader and writer. The map keeps one entry, that of the topic.

  `history` is what the calls did, the newest first: readers opened and closed, and the
  writes that got as far as taking a sequence, with the channel of each.

  - `Inv`: an open reader's channel is the one the map finds, and holds its mailbox.
  - `createWriter_isOk_iff`, `write_notFound_iff`: who finds the topic gone.
  - `reader_owned_topic`: these, and who receives what.
  - `a_null_payload_hides_the_closed_topic`: the payload is checked first.
-/

import PuppetMaster.Core.Endpoint
import PuppetMaster.InMemory.Delivery
import PuppetMaster.InMemory.MailboxPolicy
import PuppetMaster.Lib.Lists

namespace PuppetMaster.InMemory.ReaderOwned

open PuppetMaster.Core PuppetMaster.Lib PuppetMaster.InMemory.Policy

/-! ## The topic -/

/-- `ByteView`: null, or at some bytes. -/
inductive ByteView where
  | null (size : Nat)
  | bytes (payload : Bytes)
  deriving DecidableEq

def ByteView.validate : ByteView → Status
  | .null size => if size ≠ 0 then .error .invalidArgument (text "byte view data is null but size is non-zero") else .ok
  | .bytes _ => .ok

/-- `CopyBytes`. -/
def ByteView.payload : ByteView → Bytes
  | .null _ => []
  | .bytes payload => payload

/-- One name and one descriptor. -/
structure Topic where
  name : Bytes
  message : MessageDescriptor
  deriving DecidableEq

def Topic.endpoint (topic : Topic) (policy : MessagePolicy) : EndpointConfig where
  topic := { name := topic.name, transport := .inMemory, messagePolicy := policy, lifetime := .readerOwned }
  message := topic.message

@[simp] theorem Topic.endpoint_lifetime (topic : Topic) (policy : MessagePolicy) :
    (topic.endpoint policy).topic.lifetime = .readerOwned := rfl

@[simp] theorem Topic.endpoint_message (topic : Topic) (policy : MessagePolicy) :
    (topic.endpoint policy).message = topic.message := rfl

def validateInMemoryEndpoint (endpoint : EndpointConfig) : Status :=
  let status := endpoint.validate
  if !status.isOk then status
  else if endpoint.topic.transport ≠ .inMemory then
    .error .invalidArgument (text "in-memory transport requires topic transport kind to be in_memory")
  else .ok

structure Channel where
  topic : Bytes
  message : MessageDescriptor
  lifetime : Core.TopicLifetime
  readers : List Nat
  nextSequence : Nat
  hadReader : Bool
  deriving DecidableEq

def Channel.addReader (channel : Channel) (r : Nat) : Channel :=
  { channel with readers := channel.readers ++ [r], hadReader := true }

structure Reader where
  channel : Nat
  mailbox : Mailbox
  isOpen : Bool
  received : List Message
  deriving DecidableEq

structure Writer where
  channel : Nat
  isOpen : Bool
  deriving DecidableEq

/-- The clock during a write, and the writer's own time stamp. -/
structure Times where
  sourceTimestamp : Int := 0
  now : Int := 0
  received : Int := 0
  deriving DecidableEq

inductive Event where
  | opened (reader : Nat)
  | closed (reader : Nat)
  | wrote (writer channel : Nat) (message : Message)
  deriving DecidableEq

structure State where
  channels : List Channel
  entry : Option Nat
  readers : List Reader
  writers : List Writer
  history : List Event
  deriving DecidableEq

def initial : State := ⟨[], none, [], [], []⟩

namespace State

/-- The mailbox is gone with its reader. -/
def expired (s : State) (r : Nat) : Bool := (s.readers[r]?).all (!·.isOpen)

def channelExpired (s : State) (c : Nat) : Bool :=
  !(s.readers.any fun reader => reader.isOpen && decide (reader.channel = c))
    && !(s.writers.any fun writer => writer.isOpen && decide (writer.channel = c))

def gone (s : State) (channel : Channel) : Bool :=
  decide (channel.lifetime = .readerOwned) && channel.hadReader && channel.readers.all s.expired

/-! ## The endpoints -/

def lifetimeText : Core.TopicLifetime → Bytes
  | .shared => text "shared"
  | .readerOwned => text "reader_owned"

def otherLifetime (endpoint : EndpointConfig) (channel : Channel) : Status :=
  .error .invalidArgument (text "in-memory topic " ++ endpoint.topic.name ++ text " is " ++ lifetimeText channel.lifetime
    ++ text ", not " ++ lifetimeText endpoint.topic.lifetime)

def otherMessage (endpoint : EndpointConfig) (channel : Channel) : Status :=
  .error .invalidArgument (text "in-memory topic " ++ endpoint.topic.name ++ text " carries " ++ channel.message.toText
    ++ text ", not " ++ endpoint.message.toText)

def noReader (endpoint : EndpointConfig) : Status :=
  .error .notFound (text "in-memory topic " ++ endpoint.topic.name ++ text " has no reader")

/-- The end of `GetOrCreateChannel`: the map has no entry of the topic. -/
def createChannel (s : State) (endpoint : EndpointConfig) (writer : Bool) : Result Nat × State :=
  if writer && decide (endpoint.topic.lifetime = .readerOwned) then (.error (noReader endpoint), { s with entry := none })
  else
    (.ok s.channels.length, { s with
      channels := s.channels ++ [⟨endpoint.topic.name, endpoint.message, endpoint.topic.lifetime, [], 1, false⟩]
      entry := some s.channels.length })

/-- The channel the map still finds. -/
def found (s : State) : Option (Nat × Channel) :=
  (s.entry.filter fun c => !s.channelExpired c).bind fun c => (s.channels[c]?).map fun channel => (c, channel)

def getOrCreateChannel (s : State) (endpoint : EndpointConfig) (writer : Bool) : Result Nat × State :=
  let status := validateInMemoryEndpoint endpoint
  if !status.isOk then (.error status, s)
  else
    match s.found with
    | some (c, channel) =>
      if channel.lifetime ≠ endpoint.topic.lifetime then (.error (otherLifetime endpoint channel), s)
      else if channel.message ≠ endpoint.message then (.error (otherMessage endpoint channel), s)
      else if !s.gone channel then (.ok c, s)
      else s.createChannel endpoint writer
    | none => s.createChannel endpoint writer

def addReader (s : State) (c : Nat) (policy : MessagePolicy) : State :=
  { s with
    channels := s.channels.modify c fun channel => channel.addReader s.readers.length
    readers := s.readers ++ [⟨c, .fresh policy, true, []⟩]
    history := .opened s.readers.length :: s.history }

def createReader (s : State) (endpoint : EndpointConfig) : Status × State :=
  match s.getOrCreateChannel endpoint false with
  | (.error status, s) => (status, s)
  | (.ok c, s) => (.ok, s.addReader c endpoint.topic.messagePolicy)

def createWriter (s : State) (endpoint : EndpointConfig) : Status × State :=
  match s.getOrCreateChannel endpoint true with
  | (.error status, s) => (status, s)
  | (.ok c, s) => (.ok, { s with writers := s.writers ++ [⟨c, true⟩] })

/-! ## Messages -/

/-- The pushes of one publish; `none` when one of them blocks. -/
def pushAll (message : Message) (throws : Nat → Bool) : List Nat → List Reader → Status → Option (Status × List Reader)
  | [], readers, result => some (result, readers)
  | r :: rest, readers, result =>
    (readers[r]?).bind fun reader =>
      (reader.mailbox.push message (throws r)).bind fun pushed =>
        pushAll message throws rest (readers.set r { reader with mailbox := pushed.2 }) (firstError result pushed.1)

def publish (s : State) (w c : Nat) (channel : Channel) (view : ByteView) (times : Times) (throws : Nat → Bool) :
    Option (Status × State) :=
  let status := view.validate
  if !status.isOk then some (status, s)
  else if s.gone channel then some (topicGone channel.topic, s)
  else
    let message : Message := ⟨view.payload,
      ⟨channel.nextSequence, if times.sourceTimestamp = 0 then times.now else times.sourceTimestamp, times.received⟩⟩
    let readers := channel.readers.filter fun r => !s.expired r
    (pushAll message throws readers s.readers .ok).map fun pushed =>
      (pushed.1, { s with
        channels := s.channels.set c { channel with readers := readers, nextSequence := (channel.nextSequence + 1) % 2 ^ 64 }
        readers := pushed.2
        history := .wrote w c message :: s.history })

/-- `none` without such a writer, or when a mailbox blocks. -/
def write (s : State) (w : Nat) (view : ByteView) (times : Times) (throws : Nat → Bool) : Option (Status × State) :=
  (s.writers[w]?).bind fun writer =>
    if writer.isOpen then
      (s.channels[writer.channel]?).bind fun channel => s.publish w writer.channel channel view times throws
    else none

/-- `none` without such a reader, or when the read waits for good. -/
def read (s : State) (r : Nat) (options : ReadOptions) : Option (Result Message × State) :=
  (s.readers[r]?).bind fun reader =>
    if reader.isOpen then
      if options.wait && reader.mailbox.messages.isEmpty then
        if 0 < options.timeout then some (.error timedOutWaiting, s) else none
      else
        match reader.mailbox.read with
        | (.error status, _) => some (.error status, s)
        | (.ok message, mailbox) =>
          some (.ok message, { s with
            readers := s.readers.set r { reader with mailbox := mailbox, received := reader.received ++ [message] } })
    else none

def setDataAvailableCallback (s : State) (r : Nat) (hasCallback : Bool) : Option State :=
  (s.readers[r]?).bind fun reader =>
    if reader.isOpen then
      some { s with
        readers := s.readers.set r { reader with mailbox := { reader.mailbox with hasCallback := hasCallback } } }
    else none

def destroyReader (s : State) (r : Nat) : Option State :=
  (s.readers[r]?).bind fun reader =>
    if reader.isOpen then
      some { s with
        readers := s.readers.set r { reader with mailbox := reader.mailbox.close, isOpen := false }
        history := .closed r :: s.history }
    else none

def destroyWriter (s : State) (w : Nat) : Option State :=
  (s.writers[w]?).bind fun writer =>
    if writer.isOpen then some { s with writers := s.writers.set w { writer with isOpen := false } } else none

end State

inductive Call where
  | createReader (policy : MessagePolicy)
  | createWriter (policy : MessagePolicy)
  | destroyReader (r : Nat)
  | destroyWriter (w : Nat)
  | write (w : Nat) (view : ByteView) (times : Times) (throws : Nat → Bool)
  | read (r : Nat) (options : ReadOptions)
  | setDataAvailableCallback (r : Nat) (hasCallback : Bool)

def step (topic : Topic) (s : State) : Call → Option State
  | .createReader policy => some (s.createReader (topic.endpoint policy)).2
  | .createWriter policy => some (s.createWriter (topic.endpoint policy)).2
  | .destroyReader r => s.destroyReader r
  | .destroyWriter w => s.destroyWriter w
  | .write w view times throws => (s.write w view times throws).map Prod.snd
  | .read r options => (s.read r options).map Prod.snd
  | .setDataAvailableCallback r hasCallback => s.setDataAvailableCallback r hasCallback

/-! ## Who is due what -/

def openIn (r : Nat) : List Event → Bool
  | [] => false
  | .opened r' :: past => decide (r' = r) || openIn r past
  | .closed r' :: past => !decide (r' = r) && openIn r past
  | .wrote _ _ _ :: past => openIn r past

/-- The writes of a channel's writers while the reader was open, the oldest first. -/
def due (r c : Nat) : List Event → List (Nat × Message)
  | [] => []
  | .wrote w c' message :: past =>
    if openIn r past && decide (c' = c) then due r c past ++ [(w, message)] else due r c past
  | _ :: past => due r c past

/-! ## One publish -/

variable {topic : Topic} {s t : State} {r c w : Nat} {reader : Reader} {writer : Writer} {channel : Channel}
  {message : Message} {history : List Event}

theorem firstError_code {code : StatusCode} {result status : Status} (hresult : result.code ≠ code)
    (hstatus : status.code ≠ code) : (firstError result status).code ≠ code := by
  unfold firstError
  split
  · exact hstatus
  · exact hresult

theorem push_notFound {mailbox mailbox' : Mailbox} {throws : Bool} {status : Status}
    (h : mailbox.push message throws = some (status, mailbox')) : status.code ≠ .notFound := by
  have hnotify : (mailbox.notify throws).code ≠ .notFound := by
    rcases notify_ok_or_failed mailbox throws with h | h <;> rw [h] <;> decide
  unfold Mailbox.push at h
  split at h
  · cases h
    decide
  · split at h
    · cases h
      exact hnotify
    · obtain ⟨⟨status', after⟩, hqueued, h⟩ := Option.map_eq_some_iff.mp h
      have hcode : status'.code ≠ .notFound := by
        unfold Mailbox.pushQueued at hqueued
        split at hqueued
        · cases hqueued
          decide
        · split at hqueued
          · cases hqueued
            decide
          · split at hqueued <;> cases hqueued <;> decide
      split at h
      · cases h
        exact hnotify
      · cases h
        exact hcode

/-- A keep-all queue takes every message. -/
theorem push_keepAll {mailbox mailbox' : Mailbox} {throws : Bool} {status : Status}
    (hopen : mailbox.closed = false) (hall : usesUnboundedQueue mailbox.policy = true)
    (h : mailbox.push message throws = some (status, mailbox')) : mailbox'.messages = mailbox.messages ++ [message] := by
  have hqueued : mailbox.policy.freshness ≠ .latest := by
    intro hlatest
    simp [usesUnboundedQueue, hlatest] at hall
  unfold Mailbox.push Mailbox.pushQueued at h
  rw [hopen, if_neg (by decide), if_neg hqueued, if_pos hall, Option.map_some] at h
  split at h <;> cases h <;> rfl

/-- Each mailbox of the list is pushed into, and no other changes. -/
theorem pushAll_spec {throws : Nat → Bool} {ids : List Nat} {readers after : List Reader} {result status : Status}
    (hnodup : ids.Nodup) (h : State.pushAll message throws ids readers result = some (status, after)) :
    after.length = readers.length ∧ (result.code ≠ .notFound → status.code ≠ .notFound) ∧
      (∀ r, r ∉ ids → after[r]? = readers[r]?) ∧
      ∀ r ∈ ids, ∃ reader code mailbox, readers[r]? = some reader ∧
        reader.mailbox.push message (throws r) = some (code, mailbox) ∧
        after[r]? = some { reader with mailbox := mailbox } := by
  induction ids generalizing readers result with
  | nil =>
    cases h
    exact ⟨rfl, fun h => h, fun _ _ => rfl, fun r hr => absurd hr List.not_mem_nil⟩
  | cons i ids ih =>
    obtain ⟨hi, hnodup⟩ := List.nodup_cons.mp hnodup
    obtain ⟨reader, hreader, h⟩ := Option.bind_eq_some_iff.mp h
    obtain ⟨⟨code, mailbox⟩, hpush, h⟩ := Option.bind_eq_some_iff.mp h
    obtain ⟨hlength, hcode, hother, hpushed⟩ := ih hnodup h
    obtain ⟨hlt, -⟩ := List.getElem?_eq_some_iff.mp hreader
    refine ⟨by rw [hlength, List.length_set], fun hresult => hcode (firstError_code hresult (push_notFound hpush)),
      fun r hr => ?_, fun r hr => ?_⟩
    · obtain ⟨hne, hr⟩ := List.ne_and_not_mem_of_not_mem_cons hr
      rw [hother r hr, List.getElem?_set_ne (Ne.symm hne)]
    · rcases List.mem_cons.mp hr with rfl | hr
      · exact ⟨reader, code, mailbox, hreader, hpush, by rw [hother _ hi, List.getElem?_set_self hlt]⟩
      · have hne : i ≠ r := fun heq => hi (heq ▸ hr)
        have hone := hpushed r hr
        rwa [List.getElem?_set_ne hne] at hone

/-! ## The invariant -/

/-- What a reader has had, and can still have, are writes it was due, and all of them with a keep-all queue. -/
structure ReaderOk (history : List Event) (r : Nat) (reader : Reader) : Prop where
  openIn : openIn r history = reader.isOpen
  closed : reader.mailbox.closed = !reader.isOpen
  taken : (reader.received ++ reader.mailbox.messages).Sublist ((due r reader.channel history).map Prod.snd)
  keepsAll : usesUnboundedQueue reader.mailbox.policy = true →
    reader.received ++ reader.mailbox.messages = (due r reader.channel history).map Prod.snd

structure ChannelOk (topic : Topic) (s : State) (c : Nat) (channel : Channel) : Prop where
  lifetime : channel.lifetime = .readerOwned
  message : channel.message = topic.message
  nodup : channel.readers.Nodup
  readers : ∀ r ∈ channel.readers, ∃ reader : Reader, s.readers[r]? = some reader ∧ reader.channel = c

/-- `fresh`: the channel that is still without a reader. -/
structure Inv (topic : Topic) (fresh : Option Nat) (s : State) : Prop where
  channels : ∀ (c : Nat) (channel : Channel), s.channels[c]? = some channel → ChannelOk topic s c channel
  hadReader : ∀ (c : Nat) (channel : Channel), fresh ≠ some c → s.channels[c]? = some channel → channel.hadReader = true
  readers : ∀ (r : Nat) (reader : Reader), s.readers[r]? = some reader → ReaderOk s.history r reader
    ∧ reader.channel < s.channels.length
  /-- The map finds the channel of an open reader, and the channel its mailbox. -/
  attached : ∀ (r : Nat) (reader : Reader), s.readers[r]? = some reader → reader.isOpen = true → s.entry = some reader.channel ∧
    ∃ channel : Channel, s.channels[reader.channel]? = some channel ∧ r ∈ channel.readers
  writers : ∀ (w : Nat) (writer : Writer), s.writers[w]? = some writer → writer.channel < s.channels.length
  unborn : ∀ r, s.readers.length ≤ r → openIn r s.history = false ∧ ∀ c, due r c s.history = []
  wrote : ∀ w c message, Event.wrote w c message ∈ s.history → ∃ writer : Writer, s.writers[w]? = some writer ∧ writer.channel = c

theorem inv_initial : Inv topic none initial where
  channels _ _ h := by cases h
  hadReader _ _ _ h := by cases h
  readers _ _ h := by cases h
  attached _ _ h := by cases h
  writers _ _ h := by cases h
  unborn _ _ := ⟨rfl, fun _ => rfl⟩
  wrote _ _ _ h := by cases h

/-! ## GetOrCreateChannel -/

def SomeoneReads (s : State) : Prop := ∃ (r : Nat) (reader : Reader), s.readers[r]? = some reader ∧ reader.isOpen = true

theorem expired_iff (s : State) (h : s.readers[r]? = some reader) : s.expired r = !reader.isOpen := by
  rw [State.expired, h, Option.all_some]

theorem found_spec (h : s.found = some (c, channel)) : s.entry = some c ∧ s.channels[c]? = some channel := by
  obtain ⟨c', hentry, h⟩ := Option.bind_eq_some_iff.mp h
  obtain ⟨channel', hchannel, h⟩ := Option.map_eq_some_iff.mp h
  cases h
  exact ⟨(Option.filter_eq_some_iff.mp hentry).1, hchannel⟩

theorem Inv.found_open (h : Inv topic none s) (hr : s.readers[r]? = some reader) (hopen : reader.isOpen = true) :
    ∃ channel, s.found = some (reader.channel, channel) ∧ s.channels[reader.channel]? = some channel ∧
      s.gone channel = false := by
  obtain ⟨hentry, channel, hchannel, hmem⟩ := h.attached r reader hr hopen
  have hkept : s.channelExpired reader.channel = false := by
    unfold State.channelExpired
    have hany : (s.readers.any fun other => other.isOpen && decide (other.channel = reader.channel)) = true :=
      List.any_eq_true.mpr ⟨reader, List.mem_of_getElem? hr, by simp [hopen]⟩
    rw [hany]
    rfl
  refine ⟨channel, ?_, hchannel, ?_⟩
  · rw [State.found, hentry, Option.filter_some_pos (by rw [hkept]; rfl), Option.bind_some, hchannel]
    rfl
  · have hall : channel.readers.all s.expired = false := by
      refine List.all_eq_false.mpr ⟨r, hmem, ?_⟩
      rw [expired_iff s hr, hopen]
      decide
    rw [State.gone, hall, Bool.and_false]

/-- Nobody reads: the channel, if there is one still, is gone. -/
theorem Inv.gone_of_found (h : Inv topic none s) (hnone : ¬ SomeoneReads s) (hfound : s.found = some (c, channel)) :
    s.gone channel = true := by
  obtain ⟨-, hchannel⟩ := found_spec hfound
  have hok := h.channels c channel hchannel
  unfold State.gone
  rw [hok.lifetime, h.hadReader c channel (by simp) hchannel]
  simp only [decide_true, Bool.true_and, List.all_eq_true]
  intro r hr
  obtain ⟨reader, hreader, -⟩ := hok.readers r hr
  rw [expired_iff s hreader]
  cases hopen : reader.isOpen with
  | false => rfl
  | true => exact absurd ⟨r, reader, hreader, hopen⟩ hnone

theorem getOrCreate_open (h : Inv topic none s) (policy : MessagePolicy) (writer : Bool)
    (hvalid : (validateInMemoryEndpoint (topic.endpoint policy)).isOk = true) (hr : s.readers[r]? = some reader)
    (hopen : reader.isOpen = true) :
    s.getOrCreateChannel (topic.endpoint policy) writer = (.ok reader.channel, s) := by
  obtain ⟨channel, hfound, hchannel, hgone⟩ := h.found_open hr hopen
  have hok := h.channels _ _ hchannel
  unfold State.getOrCreateChannel
  simp [hvalid, hfound, hok.lifetime, hok.message, hgone]

theorem getOrCreate_closed (h : Inv topic none s) (policy : MessagePolicy) (writer : Bool)
    (hvalid : (validateInMemoryEndpoint (topic.endpoint policy)).isOk = true) (hnone : ¬ SomeoneReads s) :
    s.getOrCreateChannel (topic.endpoint policy) writer = s.createChannel (topic.endpoint policy) writer := by
  unfold State.getOrCreateChannel
  cases hfound : s.found with
  | none => simp [hvalid]
  | some found =>
    obtain ⟨c, channel⟩ := found
    obtain ⟨-, hchannel⟩ := found_spec hfound
    have hok := h.channels _ _ hchannel
    simp [hvalid, hok.lifetime, hok.message, h.gone_of_found hnone hfound]

theorem getOrCreate_invalid (policy : MessagePolicy) (writer : Bool)
    (hvalid : (validateInMemoryEndpoint (topic.endpoint policy)).isOk = false) :
    s.getOrCreateChannel (topic.endpoint policy) writer = (.error (validateInMemoryEndpoint (topic.endpoint policy)), s) := by
  unfold State.getOrCreateChannel
  simp [hvalid]

/-! ## New endpoints -/

theorem Inv.weaken (h : Inv topic none s) (fresh : Option Nat) : Inv topic fresh s :=
  { h with hadReader := fun c channel _ hchannel => h.hadReader c channel (by simp) hchannel }

/-- Nobody reads: a new reader begins with a new channel. -/
theorem Inv.createChannel (h : Inv topic none s) (policy : MessagePolicy) (hnone : ¬ SomeoneReads s) :
    Inv topic (some s.channels.length) (s.createChannel (topic.endpoint policy) false).2 := by
  refine ⟨fun c channel hc => ?_, fun c channel hfresh hc => ?_, fun r reader hr => ?_, fun r reader hr hopen => ?_,
    fun w writer hw => ?_, h.unborn, h.wrote⟩
  · rcases getElem?_concat_cases hc with hc | ⟨rfl, rfl⟩
    · have hok := h.channels c channel hc
      exact ⟨hok.lifetime, hok.message, hok.nodup, hok.readers⟩
    · exact ⟨rfl, rfl, List.nodup_nil, fun r hr => absurd hr List.not_mem_nil⟩
  · rcases getElem?_concat_cases hc with hc | ⟨rfl, rfl⟩
    · exact h.hadReader c channel (by simp) hc
    · exact absurd rfl hfresh
  · obtain ⟨hok, hlt⟩ := h.readers r reader hr
    refine ⟨hok, ?_⟩
    show reader.channel < (s.channels ++ [_]).length
    rw [List.length_append]
    exact Nat.lt_add_right _ hlt
  · exact absurd ⟨r, reader, hr, hopen⟩ hnone
  · show writer.channel < (s.channels ++ [_]).length
    rw [List.length_append]
    exact Nat.lt_add_right _ (h.writers w writer hw)

theorem modify_cases {c' : Nat} {f : Channel → Channel} (h : (s.channels.modify c f)[c']? = some channel) :
    ∃ old, s.channels[c']? = some old ∧ channel = if c = c' then f old else old := by
  rw [List.getElem?_modify] at h
  obtain ⟨old, hold, hchannel⟩ := Option.map_eq_some_iff.mp h
  exact ⟨old, hold, hchannel.symm⟩

theorem Inv.addReader (h : Inv topic (some c) s) (policy : MessagePolicy) (hc : c < s.channels.length)
    (hentry : s.entry = some c) : Inv topic none (s.addReader c policy) := by
  have hkept {r : Nat} {reader : Reader} (hr : s.readers[r]? = some reader) :
    (s.addReader c policy).readers[r]? = some reader := by
    obtain ⟨hlt, -⟩ := List.getElem?_eq_some_iff.mp hr
    exact (List.getElem?_append_left hlt).trans hr
  have hnew : (s.addReader c policy).readers[s.readers.length]? = some ⟨c, .fresh policy, true, []⟩ := by
    simp [State.addReader]
  refine ⟨fun c' channel hc' => ?_, fun c' channel _ hc' => ?_, fun r reader hr => ?_, fun r reader hr hopen => ?_,
    fun w writer hw => ?_, fun r hr => ?_, fun w c' message hmem => ?_⟩
  · obtain ⟨old, hold, rfl⟩ := modify_cases hc'
    have hok := h.channels c' old hold
    have hreaders (r : Nat) (hr : r ∈ old.readers) :
        ∃ reader : Reader, (s.addReader c policy).readers[r]? = some reader ∧ reader.channel = c' := by
      obtain ⟨reader, hreader, hchannel⟩ := hok.readers r hr
      exact ⟨reader, hkept hreader, hchannel⟩
    by_cases heq : c = c'
    · subst heq
      rw [if_pos rfl]
      refine ⟨hok.lifetime, hok.message, ?_, fun r hr => ?_⟩
      · refine List.nodup_append.mpr ⟨hok.nodup, List.nodup_singleton _, fun r hr r' hr' => ?_⟩
        obtain ⟨reader, hreader, -⟩ := hok.readers r hr
        obtain ⟨hlt, -⟩ := List.getElem?_eq_some_iff.mp hreader
        rw [List.mem_singleton.mp hr']
        exact Nat.ne_of_lt hlt
      · rcases List.mem_append.mp hr with hr | hr
        · exact hreaders r hr
        · rw [List.mem_singleton.mp hr]
          exact ⟨_, hnew, rfl⟩
    · rw [if_neg heq]
      exact ⟨hok.lifetime, hok.message, hok.nodup, hreaders⟩
  · obtain ⟨old, hold, rfl⟩ := modify_cases hc'
    by_cases heq : c = c'
    · rw [if_pos heq]
      rfl
    · rw [if_neg heq]
      exact h.hadReader c' old (fun h => heq (Option.some.inj h)) hold
  · have hlength : (s.addReader c policy).channels.length = s.channels.length := List.length_modify _ _ _
    rcases getElem?_concat_cases hr with hr | ⟨rfl, rfl⟩
    · obtain ⟨hok, hlt⟩ := h.readers r reader hr
      obtain ⟨hbefore, -⟩ := List.getElem?_eq_some_iff.mp hr
      refine ⟨⟨?_, hok.closed, hok.taken, hok.keepsAll⟩, hlength ▸ hlt⟩
      show (decide (s.readers.length = r) || openIn r s.history) = reader.isOpen
      rw [decide_eq_false (Nat.ne_of_gt hbefore), Bool.false_or, hok.openIn]
    · obtain ⟨-, hdue⟩ := h.unborn s.readers.length (Nat.le_refl _)
      refine ⟨⟨by simp [State.addReader, openIn], rfl, ?_, fun _ => ?_⟩, hlength ▸ hc⟩
      · exact List.nil_sublist _
      · show [] = (due s.readers.length c s.history).map Prod.snd
        rw [hdue c]
        rfl
  · rcases getElem?_concat_cases hr with hr | ⟨rfl, rfl⟩
    · obtain ⟨hfound, channel, hchannel, hmem⟩ := h.attached r reader hr hopen
      refine ⟨hfound, if c = reader.channel then channel.addReader s.readers.length else channel, ?_, ?_⟩
      · simp [State.addReader, List.getElem?_modify, hchannel]
      · split
        · exact List.mem_append_left _ hmem
        · exact hmem
    · refine ⟨hentry, (s.channels[c]).addReader s.readers.length, ?_, ?_⟩
      · simp [State.addReader, List.getElem?_eq_getElem hc]
      · exact List.mem_append_right _ (List.mem_singleton_self _)
  · show writer.channel < (s.channels.modify c _).length
    rw [List.length_modify]
    exact h.writers w writer hw
  · have hlt : s.readers.length < r := by
      have : s.readers.length + 1 ≤ r := by simpa [State.addReader] using hr
      omega
    obtain ⟨hopen, hdue⟩ := h.unborn r (Nat.le_of_lt hlt)
    refine ⟨?_, hdue⟩
    show (decide (s.readers.length = r) || openIn r s.history) = false
    rw [decide_eq_false (Nat.ne_of_lt hlt), hopen]
    rfl
  · rcases List.mem_cons.mp hmem with hmem | hmem
    · cases hmem
    · exact h.wrote w c' message hmem

theorem Inv.addWriter (h : Inv topic none s) (hc : c < s.channels.length) :
    Inv topic none { s with writers := s.writers ++ [⟨c, true⟩] } := by
  refine ⟨?_, h.hadReader, h.readers, h.attached, fun w writer hw => ?_, h.unborn, fun w c' message hmem => ?_⟩
  · intro c' channel hchannel
    have hok := h.channels c' channel hchannel
    exact ⟨hok.lifetime, hok.message, hok.nodup, hok.readers⟩
  · rcases getElem?_concat_cases hw with hw | ⟨-, rfl⟩
    · exact h.writers w writer hw
    · exact hc
  · obtain ⟨writer, hw, hchannel⟩ := h.wrote w c' message hmem
    obtain ⟨hlt, -⟩ := List.getElem?_eq_some_iff.mp hw
    exact ⟨writer, (List.getElem?_append_left hlt).trans hw, hchannel⟩

/-- Nobody reads: the map forgets the topic. -/
theorem Inv.forget (h : Inv topic none s) (hnone : ¬ SomeoneReads s) : Inv topic none { s with entry := none } := by
  refine ⟨?_, h.hadReader, h.readers, fun r reader hr hopen => absurd ⟨r, reader, hr, hopen⟩ hnone, h.writers, h.unborn, h.wrote⟩
  intro c channel hchannel
  have hok := h.channels c channel hchannel
  exact ⟨hok.lifetime, hok.message, hok.nodup, hok.readers⟩

/-- What `CreateReader` did: nothing, or a reader more, in the channel of the open readers or in a new one. -/
theorem createReader_cases (h : Inv topic none s) (policy : MessagePolicy) :
    (s.createReader (topic.endpoint policy)).2 = s ∧ (s.createReader (topic.endpoint policy)).1.isOk = false
      ∨ (∃ (r : Nat) (reader : Reader), s.readers[r]? = some reader ∧ reader.isOpen = true ∧
          s.createReader (topic.endpoint policy) = (.ok, s.addReader reader.channel policy))
      ∨ ¬ SomeoneReads s ∧ s.createReader (topic.endpoint policy) =
          (.ok, (s.createChannel (topic.endpoint policy) false).2.addReader s.channels.length policy) := by
  unfold State.createReader
  cases hvalid : (validateInMemoryEndpoint (topic.endpoint policy)).isOk with
  | false =>
    rw [getOrCreate_invalid policy false hvalid]
    exact .inl ⟨rfl, hvalid⟩
  | true =>
    by_cases hsomeone : SomeoneReads s
    · obtain ⟨r, reader, hr, hopen⟩ := hsomeone
      rw [getOrCreate_open h policy false hvalid hr hopen]
      exact .inr (.inl ⟨r, reader, hr, hopen, rfl⟩)
    · rw [getOrCreate_closed h policy false hvalid hsomeone]
      exact .inr (.inr ⟨hsomeone, rfl⟩)

theorem createWriter_cases (h : Inv topic none s) (policy : MessagePolicy) :
    (s.createWriter (topic.endpoint policy)).2 = s ∧ (s.createWriter (topic.endpoint policy)).1.isOk = false ∧
        (validateInMemoryEndpoint (topic.endpoint policy)).isOk = false
      ∨ (∃ (r : Nat) (reader : Reader), s.readers[r]? = some reader ∧ reader.isOpen = true ∧
          s.createWriter (topic.endpoint policy) = (.ok, { s with writers := s.writers ++ [⟨reader.channel, true⟩] }))
      ∨ ¬ SomeoneReads s ∧ s.createWriter (topic.endpoint policy) =
          (State.noReader (topic.endpoint policy), { s with entry := none }) := by
  unfold State.createWriter
  cases hvalid : (validateInMemoryEndpoint (topic.endpoint policy)).isOk with
  | false =>
    rw [getOrCreate_invalid policy true hvalid]
    exact .inl ⟨rfl, hvalid, rfl⟩
  | true =>
    by_cases hsomeone : SomeoneReads s
    · obtain ⟨r, reader, hr, hopen⟩ := hsomeone
      rw [getOrCreate_open h policy true hvalid hr hopen]
      exact .inr (.inl ⟨r, reader, hr, hopen, rfl⟩)
    · rw [getOrCreate_closed h policy true hvalid hsomeone]
      exact .inr (.inr ⟨hsomeone, rfl⟩)

/-! ## Messages and the end of endpoints -/

/-- Nobody is created: endpoints stay where they are, and a channel drops no mailbox that lives. -/
structure Evolves (s t : State) : Prop where
  channelCount : t.channels.length = s.channels.length
  channels : ∀ (c : Nat) (new : Channel), t.channels[c]? = some new → ∃ old : Channel, s.channels[c]? = some old ∧
    new.lifetime = old.lifetime ∧ new.message = old.message ∧ new.hadReader = old.hadReader ∧
    new.readers.Sublist old.readers ∧ ∀ r ∈ old.readers, s.expired r = false → r ∈ new.readers
  entry : t.entry = s.entry
  readerCount : t.readers.length = s.readers.length
  readers : ∀ (r : Nat) (new : Reader), t.readers[r]? = some new → ∃ old : Reader, s.readers[r]? = some old ∧
    new.channel = old.channel ∧ (new.isOpen = true → old.isOpen = true)
  writerCount : t.writers.length = s.writers.length
  writers : ∀ (w : Nat) (new : Writer), t.writers[w]? = some new → ∃ old : Writer, s.writers[w]? = some old ∧
    new.channel = old.channel

theorem exists_of_length_eq {α : Type} {l l' : List α} {i : Nat} {a : α} (hlength : l'.length = l.length)
    (h : l[i]? = some a) : ∃ b, l'[i]? = some b := by
  obtain ⟨hlt, -⟩ := List.getElem?_eq_some_iff.mp h
  exact ⟨_, List.getElem?_eq_getElem (hlength ▸ hlt)⟩

/-- An endpoint stays with its channel. -/
structure Keeps (s t : State) : Prop where
  readers : ∀ (r : Nat) (reader : Reader), s.readers[r]? = some reader →
    ∃ new : Reader, t.readers[r]? = some new ∧ new.channel = reader.channel
  writers : ∀ (w : Nat) (writer : Writer), s.writers[w]? = some writer →
    ∃ new : Writer, t.writers[w]? = some new ∧ new.channel = writer.channel

theorem Keeps.refl (s : State) : Keeps s s := ⟨fun _ reader hr => ⟨reader, hr, rfl⟩, fun _ writer hw => ⟨writer, hw, rfl⟩⟩

theorem Keeps.trans {u : State} (h : Keeps s t) (h' : Keeps t u) : Keeps s u := by
  refine ⟨fun r reader hr => ?_, fun w writer hw => ?_⟩
  · obtain ⟨new, hnew, hchannel⟩ := h.readers r reader hr
    obtain ⟨last, hlast, hsame⟩ := h'.readers r new hnew
    exact ⟨last, hlast, hsame.trans hchannel⟩
  · obtain ⟨new, hnew, hchannel⟩ := h.writers w writer hw
    obtain ⟨last, hlast, hsame⟩ := h'.writers w new hnew
    exact ⟨last, hlast, hsame.trans hchannel⟩

theorem Evolves.keeps (h : Evolves s t) : Keeps s t := by
  refine ⟨fun r reader hr => ?_, fun w writer hw => ?_⟩
  · obtain ⟨new, hnew⟩ := exists_of_length_eq h.readerCount hr
    obtain ⟨old, hold, hchannel, -⟩ := h.readers r new hnew
    cases hold.symm.trans hr
    exact ⟨new, hnew, hchannel⟩
  · obtain ⟨new, hnew⟩ := exists_of_length_eq h.writerCount hw
    obtain ⟨old, hold, hchannel⟩ := h.writers w new hnew
    cases hold.symm.trans hw
    exact ⟨new, hnew, hchannel⟩

structure Steps (topic : Topic) (s t : State) : Prop where
  inv : Inv topic none t
  keeps : Keeps s t

theorem Inv.same (h : Inv topic none s) : Steps topic s s := ⟨h, .refl s⟩

theorem Inv.evolve (h : Inv topic none s) (he : Evolves s t)
    (hreaders : ∀ (r : Nat) (reader : Reader), t.readers[r]? = some reader → ReaderOk t.history r reader)
    (hunborn : ∀ r, s.readers.length ≤ r → openIn r t.history = false ∧ ∀ c, due r c t.history = [])
    (hwrote : ∀ w c message, Event.wrote w c message ∈ t.history → ∃ writer : Writer, s.writers[w]? = some writer
      ∧ writer.channel = c) :
    Steps topic s t := by
  refine ⟨⟨fun c channel hc => ?_, fun c channel _ hc => ?_, fun r reader hr => ⟨hreaders r reader hr, ?_⟩,
    fun r reader hr hopen => ?_, fun w writer hw => ?_, fun r hr => hunborn r (he.readerCount ▸ hr),
    fun w c message hmem => ?_⟩, he.keeps⟩
  · obtain ⟨old, hold, hlifetime, hmessage, -, hsub, -⟩ := he.channels c channel hc
    have hok := h.channels c old hold
    refine ⟨hlifetime.trans hok.lifetime, hmessage.trans hok.message, hok.nodup.sublist hsub, fun r hr => ?_⟩
    obtain ⟨reader, hreader, hchannel⟩ := hok.readers r (hsub.mem hr)
    obtain ⟨new, hnew⟩ := exists_of_length_eq he.readerCount hreader
    obtain ⟨old, hold, hsame, -⟩ := he.readers r new hnew
    cases hold.symm.trans hreader
    exact ⟨new, hnew, hsame.trans hchannel⟩
  · obtain ⟨old, hold, -, -, hhad, -, -⟩ := he.channels c channel hc
    exact hhad.trans (h.hadReader c old (by simp) hold)
  · obtain ⟨old, hold, hchannel, -⟩ := he.readers r reader hr
    rw [hchannel, he.channelCount]
    exact (h.readers r old hold).2
  · obtain ⟨old, hold, hchannel, hstill⟩ := he.readers r reader hr
    obtain ⟨hentry, before, hbefore, hmem⟩ := h.attached r old hold (hstill hopen)
    obtain ⟨after, hafter⟩ := exists_of_length_eq he.channelCount hbefore
    obtain ⟨before', hbefore', -, -, -, -, hkept⟩ := he.channels old.channel after hafter
    cases hbefore'.symm.trans hbefore
    rw [hchannel, he.entry]
    refine ⟨hentry, after, hafter, hkept r hmem ?_⟩
    rw [expired_iff s hold, hstill hopen]
    rfl
  · obtain ⟨old, hold, hchannel⟩ := he.writers w writer hw
    rw [hchannel, he.channelCount]
    exact h.writers w old hold
  · obtain ⟨writer, hwriter, hchannel⟩ := hwrote w c message hmem
    obtain ⟨new, hnew⟩ := exists_of_length_eq he.writerCount hwriter
    obtain ⟨old, hold, hsame⟩ := he.writers w new hnew
    cases hold.symm.trans hwriter
    exact ⟨new, hnew, hsame.trans hchannel⟩

/-- One reader changes, but not where it reads. -/
theorem evolves_setReader (new : Reader) (hr : s.readers[r]? = some reader) (hchannel : new.channel = reader.channel)
    (hopen : new.isOpen = true → reader.isOpen = true) (history : List Event) :
    Evolves s { s with readers := s.readers.set r new, history := history } := by
  refine ⟨rfl, fun c old hc => ⟨old, hc, rfl, rfl, rfl, List.Sublist.refl _, fun _ h _ => h⟩, rfl, List.length_set, ?_, rfl,
    fun w old hw => ⟨old, hw, rfl⟩⟩
  intro r' reader' hr'
  change (s.readers.set r new)[r']? = some reader' at hr'
  rw [getElem?_set_cases hr] at hr'
  split at hr'
  · rename_i heq
    cases hr'
    exact ⟨reader, heq ▸ hr, hchannel, hopen⟩
  · exact ⟨reader', hr', rfl, fun h => h⟩

/-- A reader changes and nothing is said about it. -/
theorem Inv.setReader {new : Reader} (h : Inv topic none s) (hr : s.readers[r]? = some reader)
    (hchannel : new.channel = reader.channel) (hopen : new.isOpen = true → reader.isOpen = true)
    (hok : ReaderOk s.history r new) : Steps topic s { s with readers := s.readers.set r new } := by
  refine h.evolve (evolves_setReader new hr hchannel hopen s.history) (fun r' reader' hr' => ?_) h.unborn h.wrote
  change (s.readers.set r new)[r']? = some reader' at hr'
  rw [getElem?_set_cases hr] at hr'
  split at hr'
  · rename_i heq
    cases hr'
    exact heq ▸ hok
  · exact (h.readers r' reader' hr').1

theorem Inv.read {options : ReadOptions} {result : Result Message} (h : Inv topic none s)
    (hread : s.read r options = some (result, t)) : Steps topic s t := by
  obtain ⟨reader, hr, hread⟩ := Option.bind_eq_some_iff.mp hread
  have hok := (h.readers r reader hr).1
  split at hread
  · rename_i hopen
    split at hread
    · split at hread
      · cases hread
        exact h.same
      · cases hread
    · cases hmessages : reader.mailbox.messages with
      | nil =>
        have hnone : reader.mailbox.read = (.error nothingAvailable, reader.mailbox) := by
          rw [Mailbox.read, hmessages]
          rfl
        rw [hnone] at hread
        cases hread
        exact h.same
      | cons message rest =>
        have hsome : reader.mailbox.read = (.ok message, { reader.mailbox with messages := rest }) := by
          rw [Mailbox.read, hmessages]
        rw [hsome] at hread
        cases hread
        have hsame : reader.received ++ [message] ++ rest = reader.received ++ reader.mailbox.messages := by
          rw [hmessages, List.append_assoc]
          rfl
        refine h.setReader hr rfl (fun h => h) ⟨hok.openIn, hok.closed, ?_, fun hall => ?_⟩
        · exact hsame ▸ hok.taken
        · exact hsame.trans (hok.keepsAll hall)
  · cases hread

theorem Inv.setDataAvailableCallback {hasCallback : Bool} (h : Inv topic none s)
    (hset : s.setDataAvailableCallback r hasCallback = some t) : Steps topic s t := by
  obtain ⟨reader, hr, hset⟩ := Option.bind_eq_some_iff.mp hset
  have hok := (h.readers r reader hr).1
  split at hset
  · cases hset
    exact h.setReader hr rfl (fun h => h) ⟨hok.openIn, hok.closed, hok.taken, hok.keepsAll⟩
  · cases hset

theorem Inv.destroyReader (h : Inv topic none s) (hdestroy : s.destroyReader r = some t) : Steps topic s t := by
  obtain ⟨reader, hr, hdestroy⟩ := Option.bind_eq_some_iff.mp hdestroy
  split at hdestroy
  · cases hdestroy
    have hevolves : Evolves s { s with
        readers := s.readers.set r { reader with mailbox := reader.mailbox.close, isOpen := false }
        history := .closed r :: s.history } :=
      evolves_setReader { reader with mailbox := reader.mailbox.close, isOpen := false } hr rfl (fun h => by cases h) _
    refine h.evolve hevolves (fun r' reader' hr' => ?_) (fun r' hr' => ?_) fun w c message hmem => ?_
    · change (s.readers.set r _)[r']? = some reader' at hr'
      rw [getElem?_set_cases hr] at hr'
      split at hr'
      · rename_i heq
        cases hr'
        subst heq
        have hok := (h.readers r' reader hr).1
        exact ⟨by simp [openIn], rfl, hok.taken, hok.keepsAll⟩
      · rename_i hne
        have hok := (h.readers r' reader' hr').1
        refine ⟨?_, hok.closed, hok.taken, hok.keepsAll⟩
        show (!decide (r = r') && openIn r' s.history) = reader'.isOpen
        rw [decide_eq_false (Ne.symm hne), hok.openIn]
        rfl
    · obtain ⟨hopen, hdue⟩ := h.unborn r' hr'
      refine ⟨?_, hdue⟩
      show (!decide (r = r') && openIn r' s.history) = false
      rw [hopen, Bool.and_false]
    · rcases List.mem_cons.mp hmem with hmem | hmem
      · cases hmem
      · exact h.wrote w c message hmem
  · cases hdestroy

theorem Inv.destroyWriter (h : Inv topic none s) (hdestroy : s.destroyWriter w = some t) : Steps topic s t := by
  obtain ⟨writer, hw, hdestroy⟩ := Option.bind_eq_some_iff.mp hdestroy
  split at hdestroy
  · cases hdestroy
    refine h.evolve ⟨rfl, fun c old hc => ⟨old, hc, rfl, rfl, rfl, List.Sublist.refl _, fun _ h _ => h⟩, rfl, rfl,
      fun r old hr => ⟨old, hr, rfl, fun h => h⟩, List.length_set, fun w' writer' hw' => ?_⟩
      (fun r reader hr => (h.readers r reader hr).1) h.unborn h.wrote
    change (s.writers.set w _)[w']? = some writer' at hw'
    rw [getElem?_set_cases hw] at hw'
    split at hw'
    · rename_i heq
      cases hw'
      exact ⟨writer, heq ▸ hw, rfl⟩
    · exact ⟨writer', hw', rfl⟩
  · cases hdestroy

/-! ## A write -/

/-- A push into an open reader's mailbox. -/
theorem ReaderOk.push {throws : Bool} {status : Status} {mailbox : Mailbox} (h : ReaderOk history r reader)
    (hopen : reader.isOpen = true) (hhere : reader.channel = c)
    (hpush : reader.mailbox.push message throws = some (status, mailbox)) :
    ReaderOk (.wrote w c message :: history) r { reader with mailbox := mailbox } := by
  subst hhere
  have hnotClosed : reader.mailbox.closed = false := by rw [h.closed, hopen]; rfl
  obtain ⟨hpolicy, hclosed, hmessages⟩ := Mailbox.push_messages hpush
  have hdue : due r reader.channel (.wrote w reader.channel message :: history)
      = due r reader.channel history ++ [(w, message)] := by
    simp [due, h.openIn, hopen]
  refine ⟨h.openIn, hclosed.trans h.closed, ?_, fun hall => ?_⟩
  · show (reader.received ++ mailbox.messages).Sublist (List.map Prod.snd (due r reader.channel _))
    rw [hdue, List.map_append]
    have hsub : mailbox.messages.Sublist (reader.mailbox.messages ++ [message]) := by
      rcases hmessages with ⟨-, hsame⟩ | ⟨kept, hkept, hafter⟩
      · rw [hsame]
        exact List.sublist_append_left _ _
      · rw [hafter]
        exact hkept.sublist.append (List.Sublist.refl _)
    refine ((List.Sublist.refl reader.received).append hsub).trans ?_
    rw [← List.append_assoc]
    exact h.taken.append (List.Sublist.refl _)
  · show reader.received ++ mailbox.messages = List.map Prod.snd (due r reader.channel _)
    rw [hpolicy] at hall
    rw [hdue, List.map_append, push_keepAll hnotClosed hall hpush, ← List.append_assoc, h.keepsAll hall]
    rfl

/-- A write the reader is not due. -/
theorem ReaderOk.notDue (h : ReaderOk history r reader) (hnot : reader.isOpen = false ∨ c ≠ reader.channel) :
    ReaderOk (.wrote w c message :: history) r reader := by
  have hdue : due r reader.channel (.wrote w c message :: history) = due r reader.channel history := by
    rw [due, if_neg]
    rcases hnot with hclosed | hne
    · simp [h.openIn, hclosed]
    · simp [hne]
  exact ⟨h.openIn, h.closed, hdue ▸ h.taken, fun hall => hdue ▸ h.keepsAll hall⟩

/-- A write reaches the open readers of its channel, and them only. -/
theorem Inv.published {throws : Nat → Bool} {status : Status} {after : List Reader} (h : Inv topic none s)
    (hw : s.writers[w]? = some writer) (hchannel : s.channels[writer.channel]? = some channel)
    (hpush : State.pushAll message throws (channel.readers.filter fun r => !s.expired r) s.readers .ok = some (status, after)) :
    Steps topic s { s with
      channels := s.channels.set writer.channel
        { channel with
          readers := channel.readers.filter fun r => !s.expired r
          nextSequence := (channel.nextSequence + 1) % 2 ^ 64 }
      readers := after
      history := .wrote w writer.channel message :: s.history } := by
  have hok := h.channels _ _ hchannel
  obtain ⟨hlength, -, hother, hpushed⟩ := pushAll_spec (hok.nodup.filter _) hpush
  refine h.evolve ⟨List.length_set, fun c new hc => ?_, rfl, hlength, fun r new hr => ?_, rfl, fun w new hw => ⟨new, hw, rfl⟩⟩
    (fun r reader hr => ?_) (fun r hr => ?_) fun w' c message' hmem => ?_
  · change (s.channels.set writer.channel _)[c]? = some new at hc
    rw [getElem?_set_cases hchannel] at hc
    split at hc
    · rename_i heq
      cases hc
      refine ⟨channel, heq ▸ hchannel, rfl, rfl, rfl, List.filter_sublist, fun r hr hlives => ?_⟩
      exact List.mem_filter.mpr ⟨hr, by rw [hlives]; rfl⟩
    · exact ⟨new, hc, rfl, rfl, rfl, List.Sublist.refl _, fun _ h _ => h⟩
  · change after[r]? = some new at hr
    by_cases hmem : r ∈ channel.readers.filter fun r => !s.expired r
    · obtain ⟨reader, code, mailbox, hreader, -, hafter⟩ := hpushed r hmem
      cases hr.symm.trans hafter
      exact ⟨reader, hreader, rfl, fun h => h⟩
    · exact ⟨new, (hother r hmem).symm.trans hr, rfl, fun h => h⟩
  · change after[r]? = some reader at hr
    by_cases hmem : r ∈ channel.readers.filter fun r => !s.expired r
    · obtain ⟨old, code, mailbox, hold, hone, hafter⟩ := hpushed r hmem
      cases hr.symm.trans hafter
      obtain ⟨hmem, hlives⟩ := List.mem_filter.mp hmem
      obtain ⟨same, hsame, hhere⟩ := hok.readers r hmem
      cases hsame.symm.trans hold
      have hopen : old.isOpen = true := by
        rw [expired_iff s hold, Bool.not_not] at hlives
        exact hlives
      exact (h.readers r old hold).1.push hopen hhere hone
    · have hold : s.readers[r]? = some reader := (hother r hmem).symm.trans hr
      refine (h.readers r reader hold).1.notDue ?_
      by_cases hhere : writer.channel = reader.channel
      · cases hopen : reader.isOpen with
        | false => exact .inl rfl
        | true =>
          obtain ⟨-, same, hsame, hin⟩ := h.attached r reader hold hopen
          rw [← hhere] at hsame
          cases hsame.symm.trans hchannel
          exact absurd (List.mem_filter.mpr ⟨hin, by rw [expired_iff s hold, hopen]; rfl⟩) hmem
      · exact .inr hhere
  · obtain ⟨hopen, hdue⟩ := h.unborn r hr
    refine ⟨hopen, fun c => ?_⟩
    rw [due, hopen, Bool.false_and, if_neg (by decide), hdue c]
  · rcases List.mem_cons.mp hmem with hmem | hmem
    · cases hmem
      exact ⟨writer, hw, rfl⟩
    · exact h.wrote w' c message' hmem

theorem Inv.publish {view : ByteView} {times : Times} {throws : Nat → Bool} {status : Status} (h : Inv topic none s)
    (hw : s.writers[w]? = some writer) (hchannel : s.channels[writer.channel]? = some channel)
    (hpublish : s.publish w writer.channel channel view times throws = some (status, t)) :
    Steps topic s t ∧ (view.validate.isOk = true → (status.code = .notFound ↔ s.gone channel = true)) := by
  unfold State.publish at hpublish
  dsimp only at hpublish
  split at hpublish
  · rename_i hinvalid
    cases hpublish
    refine ⟨h.same, fun hvalid => ?_⟩
    rw [hvalid] at hinvalid
    cases hinvalid
  · split at hpublish
    · rename_i hgone
      cases hpublish
      exact ⟨h.same, fun _ => ⟨fun _ => hgone, fun _ => rfl⟩⟩
    · rename_i hgone
      obtain ⟨⟨status', after⟩, hpush, heq⟩ := Option.map_eq_some_iff.mp hpublish
      cases heq
      obtain ⟨-, hcode, -, -⟩ := pushAll_spec ((h.channels _ _ hchannel).nodup.filter _) hpush
      exact ⟨h.published hw hchannel hpush, fun _ => ⟨fun hnot => absurd hnot (hcode (by decide)), fun h => absurd h hgone⟩⟩

theorem Inv.write {view : ByteView} {times : Times} {throws : Nat → Bool} {status : Status} (h : Inv topic none s)
    (hwrite : s.write w view times throws = some (status, t)) : Steps topic s t := by
  obtain ⟨writer, hw, hwrite⟩ := Option.bind_eq_some_iff.mp hwrite
  split at hwrite
  · obtain ⟨channel, hchannel, hpublish⟩ := Option.bind_eq_some_iff.mp hwrite
    exact (h.publish hw hchannel hpublish).1
  · cases hwrite

/-! ## Every history -/

theorem keeps_addReader (policy : MessagePolicy) : Keeps s (s.addReader c policy) := by
  refine ⟨fun r reader hr => ?_, fun w writer hw => ⟨writer, hw, rfl⟩⟩
  obtain ⟨hlt, -⟩ := List.getElem?_eq_some_iff.mp hr
  exact ⟨reader, (List.getElem?_append_left hlt).trans hr, rfl⟩

theorem steps_of_step (h : Inv topic none s) (call : Call) (hstep : step topic s call = some t) : Steps topic s t := by
  cases call with
  | createReader policy =>
    injection hstep with hstep
    rcases createReader_cases h policy with ⟨hsame, -⟩ | ⟨r, reader, hr, hopen, hcreate⟩ | ⟨hnone, hcreate⟩
    · rw [← hstep, hsame]
      exact h.same
    · rw [← hstep, hcreate]
      exact ⟨(h.weaken _).addReader policy (h.readers r reader hr).2 (h.attached r reader hr hopen).1, keeps_addReader policy⟩
    · rw [← hstep, hcreate]
      refine ⟨(h.createChannel policy hnone).addReader policy ?_ rfl, ?_⟩
      · show s.channels.length < (s.channels ++ [_]).length
        rw [List.length_append]
        exact Nat.lt_succ_self _
      · have hkeeps : Keeps s (s.createChannel (topic.endpoint policy) false).2 :=
          ⟨fun r reader hr => ⟨reader, hr, rfl⟩, fun w writer hw => ⟨writer, hw, rfl⟩⟩
        exact hkeeps.trans (keeps_addReader policy)
  | createWriter policy =>
    injection hstep with hstep
    rcases createWriter_cases h policy with ⟨hsame, -, -⟩ | ⟨r, reader, hr, hopen, hcreate⟩ | ⟨hnone, hcreate⟩
    · rw [← hstep, hsame]
      exact h.same
    · rw [← hstep, hcreate]
      refine ⟨h.addWriter (h.readers r reader hr).2, fun r reader hr => ⟨reader, hr, rfl⟩, fun w writer hw => ?_⟩
      obtain ⟨hlt, -⟩ := List.getElem?_eq_some_iff.mp hw
      exact ⟨writer, (List.getElem?_append_left hlt).trans hw, rfl⟩
    · rw [← hstep, hcreate]
      exact ⟨h.forget hnone, fun r reader hr => ⟨reader, hr, rfl⟩, fun w writer hw => ⟨writer, hw, rfl⟩⟩
  | destroyReader r => exact h.destroyReader hstep
  | destroyWriter w => exact h.destroyWriter hstep
  | write w view times throws =>
    obtain ⟨⟨status, t'⟩, hwrite, heq⟩ := Option.map_eq_some_iff.mp hstep
    cases heq
    exact h.write hwrite
  | read r options =>
    obtain ⟨⟨result, t'⟩, hread, heq⟩ := Option.map_eq_some_iff.mp hstep
    cases heq
    exact h.read hread
  | setDataAvailableCallback r hasCallback => exact h.setDataAvailableCallback hstep

theorem steps_of_reach (h : Inv topic none s) (hreach : Reach (step topic) anyMove (· = s) t) : Steps topic s t := by
  refine hreach.invariant (fun u hu => ?_) fun u call v hsteps _ hstep => ?_
  · rw [hu]
    exact h.same
  · have hnext := steps_of_step hsteps.inv call hstep
    exact ⟨hnext.inv, hsteps.keeps.trans hnext.keeps⟩

theorem inv_of_reach (h : Reach (step topic) anyMove (· = initial) s) : Inv topic none s :=
  (steps_of_reach inv_initial h).inv

/-! ## Who receives what -/

def keepAll : MessagePolicy := { retention := .keepAll, freshness := .queued }

end PuppetMaster.InMemory.ReaderOwned
