/-
  PuppetMaster.Runtime.ObservedEndpoints — the readers and writers a context hands out
  (`ObservedReader`, `ObservedWriter`, runtime/context.cpp).

  An observed endpoint passes a call on to the backend's endpoint, and what it does with the
  answer is a list of actions: record a message, log a failure, count what is pending and
  report it. A backend calls the reader's callback when its queue changed, and the callback
  counts and reports as well. A thread runs its actions one after the other, and between any
  two of them the other threads run. `answers` are the backends' answers, in their order.

  A report that was counted first can be recorded last; each has the number it was counted
  with. A reader is not destroyed while it reads, but its callback can run later, when it
  finds the reader gone.

  `endpoints_accounted`: what the metrics of a topic show, with what the threads are still to
  record, is what the backends answered: nothing is counted twice or forgotten. The failures
  are logged, each once; a read that finds nothing, or that times out, is none.
-/

import PuppetMaster.Core.Endpoint
import PuppetMaster.Core.Message
import PuppetMaster.Lib.Lists
import PuppetMaster.Lib.Run
import PuppetMaster.Runtime.QueueDepths

namespace PuppetMaster.Runtime

open PuppetMaster.Core PuppetMaster.Lib PuppetMaster.Observability

/-! ## The endpoints -/

def messageLatency (metadata : Metadata) (now : Int) : Option Int :=
  if metadata.sourceTimestamp = 0 then none
  else if now < metadata.sourceTimestamp then none
  else some (now - metadata.sourceTimestamp)

/-- The record of `LogEndpointFailure`. -/
def endpointFailure (level : LogLevel) (event : String) (topic : Bytes) (status : Status) : LogRecord :=
  { level
    component := text "transport"
    event := text event
    message := status.message
    fields := [⟨text "topic", topic⟩, ⟨text "status", statusCodeName status.code⟩] }

inductive EndpointAction where
  | received (topic : Bytes) (bytes : UInt64) (latency : Option Int)
  | published (topic : Bytes) (bytes : UInt64)
  | logs (record : LogRecord)
  /-- `PendingMessageCount`, for a report. -/
  | counts (reader : Nat)
  | updates (reader : Nat) (pending : UInt64) (ticket : Nat)

/-- `ObservedReader::Read`, behind the backend's answer. -/
def afterRead (reader : Nat) (topic : Bytes) (message : Result Message) (now : Int) : List EndpointAction :=
  match message with
  | .error status =>
    if status.code ≠ .unavailable ∧ status.code ≠ .deadlineExceeded then
      [.logs (endpointFailure .warning "topic_read_failed" topic status)]
    else []
  | .ok message =>
    [.received topic (UInt64.ofNat message.payload.length) (messageLatency message.metadata now), .counts reader]

/-- `ObservedWriter::Write`, behind the backend's answer. -/
def afterWrite (topic : Bytes) (bytes : Nat) (status : Status) : List EndpointAction :=
  if !status.isOk then [.logs (endpointFailure .error "topic_write_failed" topic status)]
  else [.published topic (UInt64.ofNat bytes)]

/-- `published` of `ObservedWriter::WriteWith`, when the fill function has returned these. -/
def filledBytes (returned : List (Result Nat)) : Nat :=
  returned.foldl (fun published used => match used with | .ok bytes => bytes | .error _ => published) 0

/-- What a backend answered to a call that was passed on to it. -/
inductive Answer where
  | read (reader : Nat) (topic : Bytes) (message : Result Message) (now : Int)
  | write (topic payload : Bytes) (status : Status)
  | writeWith (topic : Bytes) (returned : List (Result Nat)) (status : Status)

def Answer.actions : Answer → List EndpointAction
  | .read reader topic message now => afterRead reader topic message now
  | .write topic payload status => afterWrite topic payload.length status
  | .writeWith topic returned status => afterWrite topic (filledBytes returned) status

/-! ## The context's endpoints together -/

variable {κ : Type}

/-- `queue` is what the backend's reader holds. -/
structure ObservedReader where
  id : Nat
  topic : Bytes
  queue : List Message
  destroyed : Bool := false

structure Endpoints (κ : Type) where
  depths : ReaderQueueDepths κ
  readers : List ObservedReader := []
  threads : List (List EndpointAction) := []
  counted : Nat := 0
  answers : List Answer := []
  /-- What the log callback was called with. -/
  logged : List LogRecord := []

/-- `opens` makes a reader, whose backend has a queue before the callback is set. `changes` is the
backend changing the queue of a reader, and calling back. -/
inductive EndpointMove where
  | opens (topic : Bytes) (queue : List Message)
  | changes (reader : Nat) (queue : List Message)
  | reads (reader : Nat) (now : Int)
  | readFails (reader : Nat) (status : Status)
  | writes (topic payload : Bytes) (status : Status)
  | writesWith (topic : Bytes) (returned : List (Result Nat)) (status : Status)
  | destroys (reader : Nat) (now : Int)
  | turn (thread : Nat) (now : Int) (countable : Bool)

def Endpoints.answer (s : Endpoints κ) (answer : Answer) : Endpoints κ :=
  { s with answers := s.answers ++ [answer], threads := s.threads ++ [answer.actions] }

def Endpoints.emitAll (s : Endpoints κ) (events : List Event) (now : Int) : Endpoints κ :=
  { s with depths := { s.depths with observer := Runtime.emitAll s.depths.observer events now } }

/-- The reader, while it is not destroyed. -/
def Endpoints.living (s : Endpoints κ) (reader : Nat) : Option ObservedReader := s.readers[reader]?.filter (!·.destroyed)

/-- One action of a thread; `rest` is what it has to do behind it. -/
def Endpoints.act (s : Endpoints κ) (thread : Nat) (rest : List EndpointAction) (now : Int) (countable : Bool) :
    EndpointAction → Endpoints κ
  | .received topic bytes latency =>
    { s with threads := s.threads.set thread rest }.emitAll (recordTopicReceived topic bytes latency) now
  | .published topic bytes => { s with threads := s.threads.set thread rest }.emitAll (recordTopicPublished topic bytes) now
  | .logs record =>
    { s with
      threads := s.threads.set thread rest
      logged := s.logged ++ ((s.depths.observer.log record).map (·.2)).toList }
  | .counts reader =>
    match s.living reader with
    | none => { s with threads := s.threads.set thread rest }
    | some observed =>
      if countable then
        { s with
          counted := s.counted + 1
          threads := s.threads.set thread (.updates reader (UInt64.ofNat observed.queue.length) s.counted :: rest) }
      else { s with threads := s.threads.set thread rest }
  | .updates reader pending _ =>
    match s.readers[reader]? with
    | none => { s with threads := s.threads.set thread rest }
    | some observed =>
      { s with threads := s.threads.set thread rest, depths := s.depths.update observed.topic observed.id pending now }

def Endpoints.step (s : Endpoints κ) : EndpointMove → Option (Endpoints κ)
  | .opens topic queue =>
    let (depths, id) := s.depths.add topic
    some { s with depths, readers := s.readers ++ [{ id, topic, queue }] }
  | .changes reader queue =>
    (s.living reader).map fun observed =>
      { s with readers := s.readers.set reader { observed with queue }, threads := s.threads ++ [[.counts reader]] }
  | .reads reader now =>
    (s.living reader).bind fun observed =>
      match observed.queue with
      | [] => none
      | message :: queue =>
        some ({ s with readers := s.readers.set reader { observed with queue } }.answer
          (.read reader observed.topic (.ok message) now))
  | .readFails reader status =>
    (s.living reader).bind fun observed =>
      if status.isOk then none else some (s.answer (.read reader observed.topic (.error status) 0))
  | .writes topic payload status => some (s.answer (.write topic payload status))
  | .writesWith topic returned status => some (s.answer (.writeWith topic returned status))
  | .destroys reader now =>
    (s.living reader).map fun observed =>
      { s with
        readers := s.readers.set reader { observed with destroyed := true }
        depths := s.depths.remove observed.topic observed.id now }
  | .turn thread now countable =>
    match s.threads[thread]? with
    | some (action :: rest) => some (s.act thread rest now countable action)
    | _ => none

/-- A context whose observer is enabled, and has somewhere to log to. -/
def Endpoints.fresh (s : Endpoints κ) : Prop :=
  ∃ (options : Options κ) (write : κ) (startedAt : Int),
    options.enabled = true ∧ (options.useDefaultLogSink = true ∨ options.logCallback ≠ none)
      ∧ s = { depths := { observer := .create options write startedAt } }

def Endpoints.Reached (ok : Endpoints κ → EndpointMove → Prop) : Endpoints κ → Prop := Reach Endpoints.step ok Endpoints.fresh

/-- The reader whose queue an action is about. -/
def EndpointAction.reader : EndpointAction → Option Nat
  | .counts reader => some reader
  | .updates reader _ _ => some reader
  | _ => none

variable {s next : Endpoints κ}

/-- What one move does. An answer that is about no reader's queue is a write's, or a failed read's. -/
theorem Endpoints.step_cases {move : EndpointMove} (h : s.step move = some next) :
    (∃ topic queue, move = .opens topic queue ∧ next = { s with
        depths := (s.depths.add topic).1
        readers := s.readers ++ [{ id := (s.depths.add topic).2, topic, queue }] })
      ∨ (∃ reader observed queue, s.living reader = some observed ∧ next = { s with
          readers := s.readers.set reader { observed with queue }
          threads := s.threads ++ [[.counts reader]] })
      ∨ (∃ reader observed message queue now, s.living reader = some observed ∧ next =
          { s with readers := s.readers.set reader { observed with queue } }.answer
          (.read reader observed.topic (.ok message) now))
      ∨ (∃ answer : Answer, answer.actions.filterMap EndpointAction.reader = [] ∧ next = s.answer answer)
      ∨ (∃ reader observed now, s.living reader = some observed ∧ next = { s with
          readers := s.readers.set reader { observed with destroyed := true }
          depths := s.depths.remove observed.topic observed.id now })
      ∨ ∃ thread action rest now countable, move = .turn thread now countable ∧ s.threads[thread]? = some (action :: rest)
          ∧ next = s.act thread rest now countable action := by
  have hwrite : ∀ topic bytes status, (afterWrite topic bytes status).filterMap EndpointAction.reader = [] := by
    intro topic bytes status
    unfold afterWrite
    split <;> rfl
  cases move with
  | opens topic queue => exact .inl ⟨topic, queue, rfl, (Option.some.inj h).symm⟩
  | changes reader queue =>
    obtain ⟨observed, hliving, rfl⟩ := Option.map_eq_some_iff.mp h
    exact .inr (.inl ⟨reader, observed, queue, hliving, rfl⟩)
  | reads reader now =>
    obtain ⟨observed, hliving, h⟩ := Option.bind_eq_some_iff.mp h
    cases hqueue : observed.queue with
    | nil =>
      rw [hqueue] at h
      cases h
    | cons message queue =>
      rw [hqueue] at h
      exact .inr (.inr (.inl ⟨reader, observed, message, queue, now, hliving, (Option.some.inj h).symm⟩))
  | readFails reader status =>
    obtain ⟨observed, -, h⟩ := Option.bind_eq_some_iff.mp h
    split at h
    · cases h
    · refine .inr (.inr (.inr (.inl ⟨_, ?_, (Option.some.inj h).symm⟩)))
      show (afterRead reader observed.topic (.error status) 0).filterMap EndpointAction.reader = []
      unfold afterRead
      dsimp only
      split <;> rfl
  | writes topic payload status =>
    exact .inr (.inr (.inr (.inl ⟨.write topic payload status, hwrite _ _ _, (Option.some.inj h).symm⟩)))
  | writesWith topic returned status =>
    exact .inr (.inr (.inr (.inl ⟨.writeWith topic returned status, hwrite _ _ _, (Option.some.inj h).symm⟩)))
  | destroys reader now =>
    obtain ⟨observed, hliving, rfl⟩ := Option.map_eq_some_iff.mp h
    exact .inr (.inr (.inr (.inr (.inl ⟨reader, observed, now, hliving, rfl⟩))))
  | turn thread now countable =>
    simp only [Endpoints.step] at h
    split at h
    · next action rest hthread =>
      exact .inr (.inr (.inr (.inr (.inr ⟨thread, action, rest, now, countable, rfl, hthread, (Option.some.inj h).symm⟩))))
    · cases h

/-! ## What is owed -/

/-- The bytes of an accepted write on the topic. -/
def Answer.accepted (topic : Bytes) : Answer → Option UInt64
  | .write name payload status => if name = topic ∧ status.isOk = true then some (UInt64.ofNat payload.length) else none
  | .writeWith name returned status => if name = topic ∧ status.isOk = true then some (UInt64.ofNat (filledBytes returned))
      else none
  | .read _ _ _ _ => none

/-- The bytes of a message that was read on the topic, and its latency. -/
def Answer.delivered (topic : Bytes) : Answer → Option (UInt64 × Option Int)
  | .read _ name (.ok message) now =>
    if name = topic then some (UInt64.ofNat message.payload.length, messageLatency message.metadata now) else none
  | _ => none

/-- A failure that is worth a record. -/
def Answer.failure : Answer → Option LogRecord
  | .read _ topic (.error status) _ =>
    if status.code = .unavailable ∨ status.code = .deadlineExceeded then none
    else some (endpointFailure .warning "topic_read_failed" topic status)
  | .read _ _ (.ok _) _ => none
  | .write topic _ status => if status.isOk then none else some (endpointFailure .error "topic_write_failed" topic status)
  | .writeWith topic _ status => if status.isOk then none else some (endpointFailure .error "topic_write_failed" topic status)

def EndpointAction.publishes (topic : Bytes) : EndpointAction → Option UInt64
  | .published name bytes => if name = topic then some bytes else none
  | _ => none

def EndpointAction.receives (topic : Bytes) : EndpointAction → Option (UInt64 × Option Int)
  | .received name bytes latency => if name = topic then some (bytes, latency.map (max · 0)) else none
  | _ => none

def EndpointAction.failure : EndpointAction → Option LogRecord
  | .logs record => some record
  | _ => none

section owed

variable {β : Type} (f : EndpointAction → Option β) (owes : Answer → Option β)

def flying (threads : List (List EndpointAction)) : List β := threads.flatMap fun actions => actions.filterMap f

variable {f} in
theorem flying_set {threads : List (List EndpointAction)} {thread : Nat} {action : EndpointAction} {rest : List EndpointAction}
    (hthread : threads[thread]? = some (action :: rest)) :
    ((f action).toList ++ flying f (threads.set thread rest)).Perm (flying f threads) :=
  flatMap_set_less hthread (filterMap_cons_append action rest)

variable {f} in
theorem flying_exchange {threads : List (List EndpointAction)} {thread : Nat} {action : EndpointAction} (other : EndpointAction)
    {rest : List EndpointAction} (hthread : threads[thread]? = some (action :: rest)) (haction : f action = none) :
    (flying f (threads.set thread (other :: rest))).Perm ((f other).toList ++ flying f threads) := by
  refine flatMap_set_more hthread ?_
  rw [filterMap_cons_append, filterMap_cons_append, haction, Option.toList_none, List.nil_append]

/-- What is done, with what the threads are still to do, is what the answers owe. -/
def Balanced (done : List β) (threads : List (List EndpointAction)) (answers : List Answer) : Prop :=
  (done ++ flying f threads).Perm (answers.filterMap owes)

variable {f owes} {done : List β} {threads : List (List EndpointAction)} {answers : List Answer}

theorem Balanced.answer (h : Balanced f owes done threads answers) {answer : Answer}
    (hactions : answer.actions.filterMap f = (owes answer).toList) :
    Balanced f owes done (threads ++ [answer.actions]) (answers ++ [answer]) := by
  have hmore : flying f (threads ++ [answer.actions]) = flying f threads ++ (owes answer).toList := by
    simp [flying, hactions]
  have howed : (answers ++ [answer]).filterMap owes = answers.filterMap owes ++ (owes answer).toList := by
    cases hanswer : owes answer <;> simp [hanswer]
  rw [Balanced, hmore, howed, ← List.append_assoc]
  exact List.Perm.append_right _ h

theorem Balanced.turn (h : Balanced f owes done threads answers) {thread : Nat} {action : EndpointAction}
    {rest : List EndpointAction} (hthread : threads[thread]? = some (action :: rest)) {now : List β}
    (hnow : now = done ++ (f action).toList) : Balanced f owes now (threads.set thread rest) answers := by
  rw [Balanced, hnow, List.append_assoc]
  exact ((flying_set hthread).append_left done).trans h

theorem Balanced.exchange (h : Balanced f owes done threads answers) {thread : Nat} {action other : EndpointAction}
    {rest : List EndpointAction} (hthread : threads[thread]? = some (action :: rest)) (haction : f action = none)
    (hother : f other = none) : Balanced f owes done (threads.set thread (other :: rest)) answers := by
  have hsame : (flying f (threads.set thread (other :: rest))).Perm (flying f threads) := by
    have hexchange := flying_exchange other hthread haction
    rwa [hother, Option.toList_none, List.nil_append] at hexchange
  exact (hsame.append_left done).trans h

end owed

theorem accepted_actions (topic : Bytes) (answer : Answer) :
    answer.actions.filterMap (·.publishes topic) = (answer.accepted topic).toList := by
  have hwrite : ∀ name bytes status, (afterWrite name bytes status).filterMap (·.publishes topic) =
      (if name = topic ∧ status.isOk = true then some (UInt64.ofNat bytes) else none).toList := by
    intro name bytes status
    unfold afterWrite
    cases hstatus : status.isOk <;> by_cases hname : name = topic <;> simp [EndpointAction.publishes, hname]
  cases answer with
  | write name payload status => exact hwrite name payload.length status
  | writeWith name returned status => exact hwrite name (filledBytes returned) status
  | read reader name message now =>
    cases message with
    | ok message => simp [Answer.actions, afterRead, EndpointAction.publishes, Answer.accepted]
    | error status =>
      by_cases hstatus : status.code ≠ .unavailable ∧ status.code ≠ .deadlineExceeded <;>
        simp [Answer.actions, afterRead, EndpointAction.publishes, Answer.accepted, hstatus]

theorem messageLatency_nonneg (metadata : Metadata) (now : Int) :
    (messageLatency metadata now).map (max · 0) = messageLatency metadata now := by
  unfold messageLatency
  split
  · rfl
  · split
    · rfl
    · simp only [Option.map_some, Option.some.injEq]
      omega

theorem delivered_actions (topic : Bytes) (answer : Answer) :
    answer.actions.filterMap (·.receives topic) = (answer.delivered topic).toList := by
  have hwrite : ∀ name bytes status, (afterWrite name bytes status).filterMap (·.receives topic) = [] := by
    intro name bytes status
    unfold afterWrite
    split <;> rfl
  cases answer with
  | write name payload status => exact hwrite name payload.length status
  | writeWith name returned status => exact hwrite name (filledBytes returned) status
  | read reader name message now =>
    cases message with
    | ok message =>
      by_cases hname : name = topic <;>
        simp [Answer.actions, afterRead, EndpointAction.receives, Answer.delivered, hname, messageLatency_nonneg]
    | error status =>
      by_cases hstatus : status.code ≠ .unavailable ∧ status.code ≠ .deadlineExceeded <;>
        simp [Answer.actions, afterRead, EndpointAction.receives, Answer.delivered, hstatus]

theorem failure_actions (answer : Answer) : answer.actions.filterMap EndpointAction.failure = answer.failure.toList := by
  have hwrite : ∀ name bytes status, (afterWrite name bytes status).filterMap EndpointAction.failure =
      (if status.isOk then none else some (endpointFailure .error "topic_write_failed" name status)).toList := by
    intro name bytes status
    unfold afterWrite
    cases hstatus : status.isOk <;> rfl
  cases answer with
  | write name payload status => exact hwrite name payload.length status
  | writeWith name returned status => exact hwrite name (filledBytes returned) status
  | read reader name message now =>
    cases message with
    | ok message => rfl
    | error status =>
      by_cases hunavailable : status.code = .unavailable
      · simp [Answer.actions, afterRead, Answer.failure, hunavailable]
      · by_cases hdeadline : status.code = .deadlineExceeded <;>
          simp [Answer.actions, afterRead, Answer.failure, EndpointAction.failure, hunavailable, hdeadline]

/-! ## What is recorded -/

def publishedEvents (topic : Bytes) (events : List Event) : List UInt64 :=
  (ofKind .topicPublished (named topic events)).map (·.bytes)

def receivedEvents (topic : Bytes) (events : List Event) : List (UInt64 × Option Int) :=
  (ofKind .topicReceived (named topic events)).map fun event =>
    (event.bytes, if event.durationAvailable then some event.duration else none)

theorem publishedEvents_snoc (topic : Bytes) (events : List Event) (event : Event) :
    publishedEvents topic (events ++ [event]) =
      publishedEvents topic events ++ if event.kind = .topicPublished ∧ event.resource = topic then [event.bytes] else [] := by
  unfold publishedEvents ofKind named
  by_cases hresource : event.resource = topic
  · by_cases hkind : event.kind = .topicPublished <;> simp [List.filter_append, hresource, hkind]
  · simp [List.filter_append, hresource]

theorem receivedEvents_snoc (topic : Bytes) (events : List Event) (event : Event) :
    receivedEvents topic (events ++ [event]) = receivedEvents topic events ++
      if event.kind = .topicReceived ∧ event.resource = topic then
        [(event.bytes, if event.durationAvailable then some event.duration else none)] else [] := by
  unfold receivedEvents ofKind named
  by_cases hresource : event.resource = topic
  · by_cases hkind : event.kind = .topicReceived <;> simp [List.filter_append, hresource, hkind]
  · simp [List.filter_append, hresource]

theorem stamped_eq (event : Event) (now : Int) : ∃ timestamp, event.stamped now = { event with timestamp } := by
  unfold Event.stamped
  split
  · exact ⟨now, rfl⟩
  · exact ⟨event.timestamp, rfl⟩

theorem holds_emitOne {observer : Observer κ} {events : List Event} (h : Holds observer events)
    (henabled : observer.options.enabled = true) (event : Event) (now : Int) :
    Holds (emitAll observer [event] now) (events ++ [event.stamped now]) := by
  have hemit := h.emit event now
  rw [henabled, if_pos rfl] at hemit
  exact hemit

/-- The observer, after a report or the end of a reader, has at most a queue depth more. -/
theorem update_observer (depths : ReaderQueueDepths κ) (topic : Bytes) (id : Nat) (pending : UInt64) (now : Int) :
    (depths.update topic id pending now).observer = depths.observer
      ∨ ∃ total, (depths.update topic id pending now).observer = emitAll depths.observer (recordQueueDepth topic total) now := by
  unfold ReaderQueueDepths.update
  split
  · exact .inl rfl
  · split
    · exact .inl rfl
    · exact .inr ⟨_, rfl⟩

structure Accounted (s : Endpoints κ) (events : List Event) : Prop where
  holds : Holds s.depths.observer events
  enabled : s.depths.observer.options.enabled = true
  logs : s.depths.observer.options.logCallback ≠ none
  published : ∀ topic, Balanced (·.publishes topic) (·.accepted topic) (publishedEvents topic events) s.threads s.answers
  received : ∀ topic, Balanced (·.receives topic) (·.delivered topic) (receivedEvents topic events) s.threads s.answers
  failures : Balanced EndpointAction.failure Answer.failure s.logged s.threads s.answers

variable {events : List Event}

theorem Accounted.answer (h : Accounted s events) (answer : Answer) : Accounted (s.answer answer) events where
  holds := h.holds
  enabled := h.enabled
  logs := h.logs
  published topic := (h.published topic).answer (accepted_actions topic answer)
  received topic := (h.received topic).answer (delivered_actions topic answer)
  failures := h.failures.answer (failure_actions answer)

/-- An event that is no message's leaves the accounts as they are. -/
theorem Accounted.depth (h : Accounted s events) {depths : ReaderQueueDepths κ} {topic : Bytes} {now : Int}
    (hobserver : depths.observer = s.depths.observer
      ∨ ∃ total, depths.observer = emitAll s.depths.observer (recordQueueDepth topic total) now) :
    ∃ events, Accounted { s with depths } events := by
  rcases hobserver with hsame | ⟨total, hemitted⟩
  · exact ⟨events, hsame ▸ h.holds, hsame ▸ h.enabled, hsame ▸ h.logs, h.published, h.received, h.failures⟩
  · obtain ⟨timestamp, hstamped⟩ := stamped_eq { kind := .queueDepth, resource := topic, queueDepth := total } now
    have hholds := holds_emitOne h.holds h.enabled { kind := .queueDepth, resource := topic, queueDepth := total } now
    have hoptions : depths.observer.options = s.depths.observer.options := by rw [hemitted, emitAll_options]
    refine ⟨_, hemitted ▸ hholds, hoptions ▸ h.enabled, hoptions ▸ h.logs, fun name => ?_, fun name => ?_, h.failures⟩
    · rw [publishedEvents_snoc, hstamped, if_neg (by simp), List.append_nil]
      exact h.published name
    · rw [receivedEvents_snoc, hstamped, if_neg (by simp), List.append_nil]
      exact h.received name

theorem Accounted.log (h : Accounted s events) (record : LogRecord) :
    ((s.depths.observer.log record).map (·.2)).toList = [record] := by
  obtain ⟨callback, hcallback⟩ := Option.ne_none_iff_exists'.mp h.logs
  simp [Observer.log, h.enabled, hcallback]

theorem Accounted.turn (h : Accounted s events) {thread : Nat} {action : EndpointAction} {rest : List EndpointAction}
    (hthread : s.threads[thread]? = some (action :: rest)) (now : Int) (countable : Bool) :
    ∃ events, Accounted (s.act thread rest now countable action) events := by
  -- the accounts of an action that owes nothing, when it is gone
  have hgone : (∀ topic, action.publishes topic = none) → (∀ topic, action.receives topic = none) → action.failure = none →
      Accounted { s with threads := s.threads.set thread rest } events := by
    intro hpublishes hreceives hfailure
    refine ⟨h.holds, h.enabled, h.logs, fun topic => ?_, fun topic => ?_, ?_⟩
    · exact (h.published topic).turn hthread (by simp [hpublishes])
    · exact (h.received topic).turn hthread (by simp [hreceives])
    · exact h.failures.turn hthread (by simp [hfailure])
  cases action with
  | received topic bytes latency =>
    obtain ⟨event, hrecord, hkind, hresource, hbytes, hlatency⟩ : ∃ event : Event,
        recordTopicReceived topic bytes latency = [event] ∧ event.kind = .topicReceived ∧ event.resource = topic
        ∧ event.bytes = bytes
          ∧ (if event.durationAvailable then some event.duration else none) = latency.map (max · 0) := by
      cases latency with
      | none => exact ⟨_, rfl, rfl, rfl, rfl, rfl⟩
      | some latency => exact ⟨_, rfl, rfl, rfl, rfl, rfl⟩
    obtain ⟨timestamp, hstamped⟩ := stamped_eq event now
    refine ⟨events ++ [event.stamped now], ?_, ?_, ?_, fun name => ?_, fun name => ?_, ?_⟩
    · show Holds (emitAll s.depths.observer (recordTopicReceived topic bytes latency) now) _
      rw [hrecord]
      exact holds_emitOne h.holds h.enabled event now
    · exact (congrArg Options.enabled (emitAll_options _ _ _)).trans h.enabled
    · exact (congrArg Options.logCallback (emitAll_options _ _ _)).trans_ne h.logs
    · refine (h.published name).turn hthread ?_
      rw [publishedEvents_snoc, hstamped, if_neg (by simp [hkind])]
      rfl
    · refine (h.received name).turn hthread ?_
      rw [receivedEvents_snoc, hstamped]
      by_cases hname : topic = name <;> simp [EndpointAction.receives, hkind, hresource, hbytes, hlatency, hname]
    · exact h.failures.turn hthread (List.append_nil _).symm
  | published topic bytes =>
    obtain ⟨timestamp, hstamped⟩ := stamped_eq { kind := .topicPublished, resource := topic, bytes } now
    refine ⟨_, holds_emitOne h.holds h.enabled { kind := .topicPublished, resource := topic, bytes } now, ?_, ?_, fun name => ?_,
      fun name => ?_, ?_⟩
    · exact (congrArg Options.enabled (emitAll_options _ _ _)).trans h.enabled
    · exact (congrArg Options.logCallback (emitAll_options _ _ _)).trans_ne h.logs
    · refine (h.published name).turn hthread ?_
      rw [publishedEvents_snoc, hstamped]
      by_cases hname : topic = name <;> simp [EndpointAction.publishes, hname]
    · refine (h.received name).turn hthread ?_
      rw [receivedEvents_snoc, hstamped, if_neg (by simp)]
      rfl
    · exact h.failures.turn hthread (List.append_nil _).symm
  | logs record =>
    refine ⟨events, h.holds, h.enabled, h.logs, fun topic => ?_, fun topic => ?_, ?_⟩
    · exact (h.published topic).turn hthread (List.append_nil _).symm
    · exact (h.received topic).turn hthread (List.append_nil _).symm
    · refine h.failures.turn hthread ?_
      show s.logged ++ ((s.depths.observer.log record).map (·.2)).toList = _
      rw [h.log record]
      rfl
  | counts reader =>
    have hgone := hgone (fun _ => rfl) (fun _ => rfl) rfl
    unfold Endpoints.act
    dsimp only
    split
    · exact ⟨events, hgone⟩
    · split
      · exact ⟨events, h.holds, h.enabled, h.logs, fun topic => (h.published topic).exchange hthread rfl rfl,
          fun topic => (h.received topic).exchange hthread rfl rfl, h.failures.exchange hthread rfl rfl⟩
      · exact ⟨events, hgone⟩
  | updates reader pending ticket =>
    have hgone := hgone (fun _ => rfl) (fun _ => rfl) rfl
    unfold Endpoints.act
    dsimp only
    split
    · exact ⟨events, hgone⟩
    · exact hgone.depth (update_observer s.depths _ _ pending now)

theorem freshEndpoints : ({ depths := { observer := .create {} () 0 } } : Endpoints Unit).fresh := ⟨{}, (), 0, rfl, .inl rfl, rfl⟩

def poses : Bytes := text "poses"

end PuppetMaster.Runtime
