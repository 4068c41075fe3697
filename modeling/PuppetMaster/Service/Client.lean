/-
  PuppetMaster.Service.Client — `Client::Impl`, one section of its mutex at a time.

  The threads are any number of callers inside `Start` (one `Call` each, from `CallAsync`
  or from `Call`), the dispatcher, and one caller in `Close` that is not the dispatcher.
  What the environment decides comes with the move: the messages the presence reader
  returns, clock readings, `MatchedReaderCount`, the status of a `Write`, the bytes of a
  reply. A condition wait may return at any time, as all of them are timed.

  A `ReplyCallback` is the ticket of its call. It is in one place at a time: with the
  caller, in `pending`, in a list of completions, or invoked (`fired`). `dropped` are the
  callbacks destroyed by an `emplace` that found its key taken. `byReply` marks, for the
  history, the completions that `Dispatch` made from a reply.
-/

import PuppetMaster.Lib.Run
import PuppetMaster.Service.Codec

namespace PuppetMaster.Service

open PuppetMaster.Core PuppetMaster.Lib

structure ServiceSpec where
  name : Bytes
  heartbeatInterval : Int
  deriving DecidableEq, Repr

def describe (spec : ServiceSpec) : Bytes := text "service " ++ spec.name

def liveness (spec : ServiceSpec) : Int := 3 * spec.heartbeatInterval

/-! ## The state -/

structure Pending where
  deadline : Int
  timeout : Int
  call : Nat
  deriving DecidableEq, Repr

structure Completion where
  call : Nat
  result : Result Bytes
  byReply : Bool
  deriving DecidableEq

/--
A caller: about to lock; in the first or second wait of `AwaitServerLocked`; with the
status its call fails with; registered, about to write; with the status of a failed
write, about to lock; with the callback it took back; out of `Start`.
-/
inductive CallPc where
  | entered
  | awaiting (giveUp : Int)
  | matching
  | failing (status : Status)
  | sending (requestId : UInt64)
  | sendFailed (requestId : UInt64) (status : Status)
  | failSend (owner : Nat) (status : Status)
  | returned
  deriving DecidableEq

structure Call where
  ticket : Nat
  request : Bytes
  timeout : Int
  deadline : Int
  mayWait : Bool
  /-- The id it registered under. -/
  requestId : Option UInt64
  pc : CallPc
  deriving DecidableEq

inductive DispatcherPc where
  | waiting
  | reading (completions : List Completion)
  | running (completions : List Completion)
  | exited
  deriving DecidableEq

inductive CloserPc where
  | idle
  | joining
  | running (cancelled : List Completion)
  | returned
  deriving DecidableEq

structure Client where
  closed : Bool := false
  nextRequest : UInt64 := 0
  pending : List (UInt64 × Pending) := []
  serverInstance : UInt64 := 0
  serverWithdrew : Bool := false
  heartbeatSequence : UInt64 := 0
  heartbeatAt : Int := 0
  calls : List Call := []
  dispatcher : DispatcherPc := .waiting
  closer : CloserPc := .idle
  fired : List Completion := []
  dropped : List Nat := []
  deriving DecidableEq

/-! ## Presence -/

def presenceSize : Nat := 16

def offlineSequence : UInt64 := 0

/-- A message of the presence reader, and the clock when it is processed. -/
structure PresenceRead where
  payload : Bytes
  now : Int
  deriving DecidableEq, Repr

def readPresence (s : Client) (read : PresenceRead) : Client :=
  if read.payload.length ≠ presenceSize then s
  else
    let instance_ := getU64 read.payload
    let sequence := getU64 (read.payload.drop 8)
    if instance_ = s.serverInstance ∧ sequence = s.heartbeatSequence then s
    else if sequence = offlineSequence then
      if instance_ = s.serverInstance then
        { s with serverInstance := 0, heartbeatSequence := 0, heartbeatAt := 0, serverWithdrew := true }
      else s
    else
      { s with serverInstance := instance_, heartbeatSequence := sequence, heartbeatAt := read.now
               serverWithdrew := false }

def pollPresence (s : Client) (reads : List PresenceRead) : Client := reads.foldl readPresence s

def decimal (n : Int) : Bytes := text (toString n)

def noLiveServer (spec : ServiceSpec) (s : Client) (age : Int) : Status :=
  let reason :=
    if s.serverWithdrew then text " (the server stopped)"
    else if s.serverInstance ≠ 0 then text " (last heartbeat " ++ decimal (age.tdiv 1000000) ++ text " ms ago)"
    else []
  .error .unavailable (describe spec ++ text " has no live server" ++ reason)

/-- `LiveServerLocked` after its poll: the status to fail with, if there is no live server. -/
def liveServer (spec : ServiceSpec) (s : Client) (now : Int) : Option Status :=
  let age := now - s.heartbeatAt
  if s.serverInstance = 0 ∨ liveness spec < age then some (noLiveServer spec s age) else none

/-! ## The pending map -/

def findPending (pending : List (UInt64 × Pending)) (id : UInt64) : Option Pending :=
  (pending.find? fun entry => entry.1 = id).map Prod.snd

def erasePending (pending : List (UInt64 × Pending)) (id : UInt64) : List (UInt64 × Pending) :=
  pending.filter fun entry => entry.1 ≠ id

/-- `emplace` of a key that is not there; the map is in key order. -/
def insertPending (pending : List (UInt64 × Pending)) (id : UInt64) (call : Pending) : List (UInt64 × Pending) :=
  pending.takeWhile (fun entry => decide (entry.1 < id)) ++ (id, call)
    :: pending.dropWhile fun entry => decide (entry.1 < id)

/-! ## Callers -/

def setCall (s : Client) (c : Nat) (call : Call) : Client := { s with calls := s.calls.set c call }

def setPc (s : Client) (c : Nat) (call : Call) (pc : CallPc) : Client := setCall s c { call with pc := pc }

def fire (s : Client) (completion : Completion) : Client := { s with fired := s.fired ++ [completion] }

def clientClosed (spec : ServiceSpec) : Status := .error .cancelled (describe spec ++ text ": client is closed")

def notMatched (spec : ServiceSpec) : Status :=
  .error .unavailable
    (describe spec ++ text ": the server is alive but its request reader was not matched in time")

/-- The end of the first section of `Start`: `++next_request`, then `pending.emplace`. -/
def register (s : Client) (c : Nat) (call : Call) : Client :=
  let id := s.nextRequest + 1
  let registered := setCall { s with nextRequest := id } c { call with requestId := some id, pc := .sending id }
  if (findPending s.pending id).isSome then { registered with dropped := s.dropped ++ [call.ticket] }
  else { registered with pending := insertPending s.pending id ⟨call.deadline, call.timeout, call.ticket⟩ }

section register

variable (s : Client) (c : Nat) (call : Call)

@[simp] theorem register_calls : (register s c call).calls = s.calls.set c
    { call with requestId := some (s.nextRequest + 1), pc := .sending (s.nextRequest + 1) } := by
  unfold register
  dsimp only
  split
  · rfl
  · rfl

@[simp] theorem register_nextRequest : (register s c call).nextRequest = s.nextRequest + 1 := by
  unfold register
  dsimp only
  split
  · rfl
  · rfl

/-- What is left as it was: the two other threads, the completed calls, the view of the server. -/
theorem register_others : (register s c call).dispatcher = s.dispatcher ∧ (register s c call).closer = s.closer
    ∧ (register s c call).fired = s.fired ∧ (register s c call).closed = s.closed
    ∧ (register s c call).serverInstance = s.serverInstance ∧ (register s c call).heartbeatAt = s.heartbeatAt := by
  unfold register
  dsimp only
  split
  · exact ⟨rfl, rfl, rfl, rfl, rfl, rfl⟩
  · exact ⟨rfl, rfl, rfl, rfl, rfl, rfl⟩

end register

/-- What `AwaitServerLocked` learns in one section; `matched` is `none` when it is not Ok. -/
structure Section where
  reads : List PresenceRead := []
  now : Int := 0
  matched : Option Nat := some 1
  matchNow : Int := 0
  deriving DecidableEq, Repr

/-- The second loop of `AwaitServerLocked`, up to its wait or its return. -/
def matchServer (spec : ServiceSpec) (s : Client) (c : Nat) (call : Call) (env : Section) : Client :=
  if env.matched ≠ some 0 then register s c call
  else if s.closed then setPc s c call (.failing (clientClosed spec))
  else if !call.mayWait ∨ call.deadline ≤ env.matchNow then setPc s c call (.failing (notMatched spec))
  else setPc s c call .matching

/-- The first loop, and on to the second once a live server is seen. -/
def searchServer (spec : ServiceSpec) (s : Client) (c : Nat) (call : Call) (giveUp : Int) (env : Section) : Client :=
  if s.closed then setPc s c call (.failing (clientClosed spec))
  else
    let polled := pollPresence s env.reads
    match liveServer spec polled env.now with
    | none => matchServer spec polled c call env
    | some status =>
      if !call.mayWait ∨ polled.serverWithdrew ∨ giveUp ≤ env.now then setPc polled c call (.failing status)
      else setPc polled c call (.awaiting giveUp)

def sendingFailed (spec : ServiceSpec) (status : Status) : Status :=
  .error status.code (describe spec ++ text ": sending request failed: " ++ status.message)

/-- The section of `Start` after a failed write. -/
def takeBack (s : Client) (c : Nat) (call : Call) (id : UInt64) (status : Status) : Client :=
  match findPending s.pending id with
  | none => setPc s c call .returned
  | some found => setPc { s with pending := erasePending s.pending id } c call (.failSend found.call status)

/-- The request as `Start` encodes it. -/
def requestMessage (clientId : UInt64) (call : Call) (id : UInt64) : Bytes :=
  encode { magic := requestMagic, clientId := clientId, requestId := id, budgetNs := Int64.ofInt call.timeout }
    call.request

/-! ## The dispatcher -/

/-- What a reply says. -/
def replyResult (header : Header) (payload : Bytes) : Result Bytes :=
  if header.status = .ok then .ok payload else Result.fromStatus (.error header.status payload)

/-- The body of the read loop of `Dispatch`. -/
def readReply (clientId : UInt64) (s : Client) (message : Bytes) (completions : List Completion) : Client :=
  match decode message replyMagic with
  | none => s
  | some (header, payload) =>
    if header.clientId ≠ clientId then s
    else
      match findPending s.pending header.requestId with
      | none => s
      | some found =>
        { s with
          pending := erasePending s.pending header.requestId
          dispatcher := .reading (completions ++ [⟨found.call, replyResult header payload, true⟩]) }

def stoppedResponding (spec : ServiceSpec) : Status :=
  .error .unavailable (describe spec ++ text ": server stopped responding during the call")

def noReplyWithin (spec : ServiceSpec) (timeout : Int) : Status :=
  .error .deadlineExceeded
    (describe spec ++ text ": no reply within " ++ decimal (timeout.tdiv 1000000) ++ text " ms")

/-- Why `ExpireLocked` takes a call, if it does. -/
def expiry (spec : ServiceSpec) (alive : Bool) (now : Int) (call : Pending) : Option Status :=
  if !alive then some (stoppedResponding spec)
  else if call.deadline ≤ now then some (noReplyWithin spec call.timeout) else none

def expire (spec : ServiceSpec) (s : Client) (reads : List PresenceRead) (now liveNow : Int)
    (completions : List Completion) : Client :=
  if s.pending.isEmpty then
    { s with dispatcher := if completions.isEmpty then .waiting else .running completions }
  else
    let polled := pollPresence s reads
    let alive := (liveServer spec polled liveNow).isNone
    let taken := completions ++ s.pending.filterMap fun entry =>
      (expiry spec alive now entry.2).map fun status => ⟨entry.2.call, Result.fromStatus status, false⟩
    { polled with
      pending := s.pending.filter fun entry => (expiry spec alive now entry.2).isNone
      dispatcher := if taken.isEmpty then .waiting else .running taken }

/-! ## Close -/

def closedDuringCall (spec : ServiceSpec) : Status :=
  .error .cancelled (describe spec ++ text ": client closed during the call")

def drain (spec : ServiceSpec) (s : Client) : Client :=
  { s with
    pending := []
    closer := .running (s.pending.map fun entry =>
      ⟨entry.2.call, Result.fromStatus (closedDuringCall spec), false⟩) }

/-! ## Moves -/

inductive Move where
  | call (request : Bytes) (timeout : Int) (mayWait : Bool) (now : Int)
  | search (c : Nat) (now : Int) (env : Section)
  | matched (c : Nat) (env : Section)
  | write (c : Nat) (status : Status)
  | takeBack (c : Nat)
  | completeHere (c : Nat)
  | dispatcherWakes (reads : List PresenceRead)
  | dispatcherReads (message : Bytes)
  | dispatcherExpires (reads : List PresenceRead) (now liveNow : Int)
  | dispatcherRuns
  | close
  | closeDrains
  | closeRuns
  deriving DecidableEq

def stepCall (s : Client) (c : Nat) (f : Call → Option Client) : Option Client := s.calls[c]?.bind f

/-- The dispatcher is done with a completion. -/
def dispatcherAfter (rest : List Completion) : DispatcherPc := if rest.isEmpty then .waiting else .running rest

def step (spec : ServiceSpec) (clientId : UInt64) (s : Client) : Move → Option Client
  | .call request timeout mayWait now =>
    if 0 < timeout then
      some { s with calls := s.calls ++ [⟨s.calls.length, request, timeout, now + timeout, mayWait, none, .entered⟩] }
    else none
  | .search c now env => stepCall s c fun call =>
    match call.pc with
    | .entered => some (searchServer spec s c call (min call.deadline (now + liveness spec)) env)
    | .awaiting giveUp => some (searchServer spec s c call giveUp env)
    | _ => none
  | .matched c env => stepCall s c fun call =>
    if call.pc = .matching then some (matchServer spec s c call env) else none
  | .write c status => stepCall s c fun call =>
    match call.pc with
    | .sending id => some (setPc s c call (if status.isOk then .returned else .sendFailed id status))
    | _ => none
  | .takeBack c => stepCall s c fun call =>
    match call.pc with
    | .sendFailed id status => some (takeBack s c call id status)
    | _ => none
  | .completeHere c => stepCall s c fun call =>
    match call.pc with
    | .failing status => some (fire (setPc s c call .returned) ⟨call.ticket, Result.fromStatus status, false⟩)
    | .failSend owner status =>
      some (fire (setPc s c call .returned) ⟨owner, Result.fromStatus (sendingFailed spec status), false⟩)
    | _ => none
  | .dispatcherWakes reads =>
    match s.dispatcher with
    | .waiting =>
      if s.closed then some { s with dispatcher := .exited }
      else some { pollPresence s reads with dispatcher := .reading [] }
    | _ => none
  | .dispatcherReads message =>
    match s.dispatcher with
    | .reading completions => some (readReply clientId s message completions)
    | _ => none
  | .dispatcherExpires reads now liveNow =>
    match s.dispatcher with
    | .reading completions => some (expire spec s reads now liveNow completions)
    | _ => none
  | .dispatcherRuns =>
    match s.dispatcher with
    | .running (completion :: rest) => some { fire s completion with dispatcher := dispatcherAfter rest }
    | _ => none
  | .close =>
    match s.closer with
    | .idle => some { s with closed := true, closer := .joining }
    | _ => none
  | .closeDrains =>
    match s.closer, s.dispatcher with
    | .joining, .exited => some (drain spec s)
    | _, _ => none
  | .closeRuns =>
    match s.closer with
    | .running (completion :: rest) => some { fire s completion with closer := .running rest }
    | .running [] => some { s with closer := .returned }
    | _ => none

def IsInitial (s : Client) : Prop := s = {}

/-! ## What a move can do -/

/-- The same client, up to what it has seen of the server. -/
structure SameCalls (s t : Client) : Prop where
  closed : t.closed = s.closed
  nextRequest : t.nextRequest = s.nextRequest
  pending : t.pending = s.pending
  calls : t.calls = s.calls
  dispatcher : t.dispatcher = s.dispatcher
  closer : t.closer = s.closer
  fired : t.fired = s.fired
  dropped : t.dropped = s.dropped

theorem SameCalls.refl (s : Client) : SameCalls s s := ⟨rfl, rfl, rfl, rfl, rfl, rfl, rfl, rfl⟩

theorem SameCalls.trans {s t u : Client} (h : SameCalls s t) (h' : SameCalls t u) : SameCalls s u :=
  ⟨h'.closed.trans h.closed, h'.nextRequest.trans h.nextRequest, h'.pending.trans h.pending, h'.calls.trans h.calls,
    h'.dispatcher.trans h.dispatcher, h'.closer.trans h.closer, h'.fired.trans h.fired, h'.dropped.trans h.dropped⟩

theorem readPresence_same (s : Client) (read : PresenceRead) : SameCalls s (readPresence s read) := by
  unfold readPresence
  split
  · exact SameCalls.refl s
  · dsimp only
    split
    · exact SameCalls.refl s
    · split
      · split
        · exact ⟨rfl, rfl, rfl, rfl, rfl, rfl, rfl, rfl⟩
        · exact SameCalls.refl s
      · exact ⟨rfl, rfl, rfl, rfl, rfl, rfl, rfl, rfl⟩

theorem pollPresence_same (s : Client) (reads : List PresenceRead) : SameCalls s (pollPresence s reads) := by
  induction reads generalizing s with
  | nil => exact SameCalls.refl s
  | cons read reads ih => exact (readPresence_same s read).trans (ih _)

/-- In `AwaitServerLocked`, or about to be. -/
def CallPc.searching : CallPc → Bool
  | .entered => true
  | .awaiting _ => true
  | .matching => true
  | _ => false

/-- Where a section of `AwaitServerLocked` can leave a call that it does not register. -/
def CallPc.parked : CallPc → Bool
  | .awaiting _ => true
  | .matching => true
  | .failing _ => true
  | _ => false

/-- A section of `AwaitServerLocked`. -/
def Move.attempts : Move → Bool
  | .search _ _ _ => true
  | .matched _ _ => true
  | _ => false

/-- The moves as a relation, one case for each way a move can go, with its guard. -/
inductive Transition (spec : ServiceSpec) (clientId : UInt64) (s : Client) : Move → Client → Prop
  | call (request : Bytes) (timeout : Int) (mayWait : Bool) (now : Int) (positive : 0 < timeout) :
      Transition spec clientId s (.call request timeout mayWait now)
        { s with calls := s.calls ++ [⟨s.calls.length, request, timeout, now + timeout, mayWait, none, .entered⟩] }
  | park {move : Move} {c : Nat} {call : Call} {polled : Client} {pc : CallPc} (attempt : move.attempts = true)
      (thread : s.calls[c]? = some call) (old : call.pc.searching = true) (same : SameCalls s polled)
      (new : pc.parked = true) : Transition spec clientId s move (setPc polled c call pc)
  | register {move : Move} {c : Nat} {call : Call} {polled : Client} (attempt : move.attempts = true)
      (thread : s.calls[c]? = some call) (old : call.pc.searching = true) (same : SameCalls s polled) :
      Transition spec clientId s move (register polled c call)
  | write {c : Nat} {call : Call} {id : UInt64} (status : Status) (thread : s.calls[c]? = some call)
      (pc : call.pc = .sending id) :
      Transition spec clientId s (.write c status)
        (setPc s c call (if status.isOk then .returned else .sendFailed id status))
  | takeBack {c : Nat} {call : Call} {id : UInt64} {status : Status} (thread : s.calls[c]? = some call)
      (pc : call.pc = .sendFailed id status) :
      Transition spec clientId s (.takeBack c) (takeBack s c call id status)
  | fail {c : Nat} {call : Call} {status : Status} (thread : s.calls[c]? = some call) (pc : call.pc = .failing status) :
      Transition spec clientId s (.completeHere c)
        (fire (setPc s c call .returned) ⟨call.ticket, Result.fromStatus status, false⟩)
  | failSend {c owner : Nat} {call : Call} {status : Status} (thread : s.calls[c]? = some call)
      (pc : call.pc = .failSend owner status) :
      Transition spec clientId s (.completeHere c)
        (fire (setPc s c call .returned) ⟨owner, Result.fromStatus (sendingFailed spec status), false⟩)
  | dispatcherExits (reads : List PresenceRead) (pc : s.dispatcher = .waiting) (closed : s.closed = true) :
      Transition spec clientId s (.dispatcherWakes reads) { s with dispatcher := .exited }
  | dispatcherWakes (reads : List PresenceRead) (pc : s.dispatcher = .waiting) (closed : s.closed = false) :
      Transition spec clientId s (.dispatcherWakes reads) { pollPresence s reads with dispatcher := .reading [] }
  | dispatcherReads {completions : List Completion} (message : Bytes) (pc : s.dispatcher = .reading completions) :
      Transition spec clientId s (.dispatcherReads message) (readReply clientId s message completions)
  | dispatcherExpires {completions : List Completion} (reads : List PresenceRead) (now liveNow : Int)
      (pc : s.dispatcher = .reading completions) :
      Transition spec clientId s (.dispatcherExpires reads now liveNow) (expire spec s reads now liveNow completions)
  | dispatcherRuns {completion : Completion} {rest : List Completion} (pc : s.dispatcher = .running (completion :: rest)) :
      Transition spec clientId s .dispatcherRuns { fire s completion with dispatcher := dispatcherAfter rest }
  | close (pc : s.closer = .idle) : Transition spec clientId s .close { s with closed := true, closer := .joining }
  | closeDrains (pc : s.closer = .joining) (joined : s.dispatcher = .exited) :
      Transition spec clientId s .closeDrains (drain spec s)
  | closeRuns {completion : Completion} {rest : List Completion} (pc : s.closer = .running (completion :: rest)) :
      Transition spec clientId s .closeRuns { fire s completion with closer := .running rest }
  | closeReturns (pc : s.closer = .running []) : Transition spec clientId s .closeRuns { s with closer := .returned }

variable {spec : ServiceSpec} {clientId : UInt64} {s t : Client}

theorem matchServer_transition {move : Move} {c : Nat} {call : Call} {polled : Client} (env : Section)
    (attempt : move.attempts = true) (thread : s.calls[c]? = some call) (old : call.pc.searching = true)
    (same : SameCalls s polled) : Transition spec clientId s move (matchServer spec polled c call env) := by
  unfold matchServer
  split
  · exact .register attempt thread old same
  · split
    · exact .park attempt thread old same rfl
    · split
      · exact .park attempt thread old same rfl
      · exact .park attempt thread old same rfl

theorem searchServer_transition {move : Move} {c : Nat} {call : Call} (giveUp : Int) (env : Section)
    (attempt : move.attempts = true) (thread : s.calls[c]? = some call) (old : call.pc.searching = true) :
    Transition spec clientId s move (searchServer spec s c call giveUp env) := by
  have hpolled := pollPresence_same s env.reads
  unfold searchServer
  split
  · exact .park attempt thread old (SameCalls.refl s) rfl
  · dsimp only
    split
    · exact matchServer_transition env attempt thread old hpolled
    · split
      · exact .park attempt thread old hpolled rfl
      · exact .park attempt thread old hpolled rfl

theorem stepCall_some {c : Nat} {f : Call → Option Client} (h : stepCall s c f = some t) :
    ∃ call, s.calls[c]? = some call ∧ f call = some t :=
  Option.bind_eq_some_iff.mp h

theorem transition_of_step {move : Move} (h : step spec clientId s move = some t) :
    Transition spec clientId s move t := by
  cases move with
  | call request timeout mayWait now =>
    simp only [step] at h
    split at h
    · rename_i hpos
      cases h
      exact .call request timeout mayWait now hpos
    · cases h
  | search c now env =>
    obtain ⟨call, hcall, h⟩ := stepCall_some h
    split at h
    · rename_i hpc
      cases h
      exact searchServer_transition _ env rfl hcall (by rw [hpc]; rfl)
    · rename_i giveUp hpc
      cases h
      exact searchServer_transition _ env rfl hcall (by rw [hpc]; rfl)
    · cases h
  | matched c env =>
    obtain ⟨call, hcall, h⟩ := stepCall_some h
    split at h
    · rename_i hpc
      cases h
      exact matchServer_transition env rfl hcall (by rw [hpc]; rfl) (SameCalls.refl s)
    · cases h
  | write c status =>
    obtain ⟨call, hcall, h⟩ := stepCall_some h
    split at h
    · rename_i id hpc
      cases h
      exact .write status hcall hpc
    · cases h
  | takeBack c =>
    obtain ⟨call, hcall, h⟩ := stepCall_some h
    split at h
    · rename_i id status hpc
      cases h
      exact .takeBack hcall hpc
    · cases h
  | completeHere c =>
    obtain ⟨call, hcall, h⟩ := stepCall_some h
    split at h
    · rename_i status hpc
      cases h
      exact .fail hcall hpc
    · rename_i owner status hpc
      cases h
      exact .failSend hcall hpc
    · cases h
  | dispatcherWakes reads =>
    simp only [step] at h
    split at h
    · rename_i hpc
      split at h
      · rename_i hclosed
        cases h
        exact .dispatcherExits reads hpc hclosed
      · rename_i hclosed
        cases h
        exact .dispatcherWakes reads hpc (by simpa using hclosed)
    · cases h
  | dispatcherReads message =>
    simp only [step] at h
    split at h
    · rename_i completions hpc
      cases h
      exact .dispatcherReads message hpc
    · cases h
  | dispatcherExpires reads now liveNow =>
    simp only [step] at h
    split at h
    · rename_i completions hpc
      cases h
      exact .dispatcherExpires reads now liveNow hpc
    · cases h
  | dispatcherRuns =>
    simp only [step] at h
    split at h
    · rename_i completion rest hpc
      cases h
      exact .dispatcherRuns hpc
    · cases h
  | close =>
    simp only [step] at h
    split at h
    · rename_i hpc
      cases h
      exact .close hpc
    · cases h
  | closeDrains =>
    simp only [step] at h
    split at h
    · rename_i hpc hjoined
      cases h
      exact .closeDrains hpc hjoined
    · cases h
  | closeRuns =>
    simp only [step] at h
    split at h
    · rename_i completion rest hpc
      cases h
      exact .closeRuns hpc
    · rename_i hpc
      cases h
      exact .closeReturns hpc
    · cases h

end PuppetMaster.Service
