/-
  PuppetMaster.Service.Server — `Server::Impl::Serve` and `Reply`, and the service as a
  whole: clients, one server at a time, and the topics between them.

  Clients are named by their ids, so no two share one. `requests` is what has been written
  to the request topic and not been read, `replies` the same for each client's reply
  topic. The topics may deliver in any order and lose messages; a message is read at most
  once and as it was written. `Write` may report a failure although the message gets
  through, and the other way round.

  The server takes a request, runs its handler, and replies through the writer it keeps
  for that client; idle writers are evicted, and the server may be closed or crash and be
  replaced at any point. History: `invoked` are the handler's invocations, `answered` those
  that came to an end, with their outcome.
-/

import Mathlib.Logic.Function.Basic
import PuppetMaster.Service.Client

namespace PuppetMaster.Service

open PuppetMaster.Core PuppetMaster.Lib

/-! ## The server -/

/-- How a handler can end. -/
inductive Outcome where
  | ok (payload : Bytes)
  | failed (status : Status)
  | threw (what : Bytes)
  | threwUnknown
  deriving DecidableEq

/-- The result `Serve` replies with. -/
def Outcome.result : Outcome → Result Bytes
  | .ok payload => .ok payload
  | .failed status => Result.fromStatus status
  | .threw what => Result.fromStatus (.error .internal (text "service handler threw: " ++ what))
  | .threwUnknown => Result.fromStatus (.error .internal (text "service handler threw"))

/-- An invocation of the handler: its `Request`, without the deadline. -/
structure Invocation where
  clientId : UInt64
  requestId : UInt64
  payload : Bytes
  deriving DecidableEq

inductive ServerPc where
  | idle
  | handling (request : Invocation)
  | replying (request : Invocation) (outcome : Outcome)
  deriving DecidableEq

structure Server where
  pc : ServerPc := .idle
  /-- Client id and `last_used` of each reply writer. -/
  replyWriters : List (UInt64 × Int) := []
  handled : Nat := 0
  expired : Nat := 0
  deriving DecidableEq

/-- `header.budget_ns != 0 && Now() > deadline`. -/
def isExpired (header : Header) (received now : Int) : Bool :=
  decide (header.budgetNs ≠ 0) && decide (received + header.budgetNs.toInt < now)

/-- The reply to an invocation, as `Serve` and `Reply` encode it. -/
def replyMessage (request : Invocation) (result : Result Bytes) : Bytes :=
  match result with
  | .ok payload => encode { magic := replyMagic, clientId := request.clientId, requestId := request.requestId } payload
  | .error status =>
    encode { magic := replyMagic, status := status.code, clientId := request.clientId, requestId := request.requestId }
      status.message

/-- What `Reply` meets: whether a new writer comes up and is matched, and what `Write` does. -/
structure ReplyEnv where
  now : Int := 0
  created : Bool := true
  ok : Bool := true
  delivered : Bool := true
  deriving DecidableEq, Repr

def findWriter (writers : List (UInt64 × Int)) (clientId : UInt64) : Bool :=
  writers.any fun entry => entry.1 = clientId

def eraseWriter (writers : List (UInt64 × Int)) (clientId : UInt64) : List (UInt64 × Int) :=
  writers.filter fun entry => entry.1 ≠ clientId

/-- `ReplyWriterLocked`: the writers afterwards, and whether there is one for the client. -/
def replyWriterLocked (writers : List (UInt64 × Int)) (clientId : UInt64) (env : ReplyEnv) :
    List (UInt64 × Int) × Bool :=
  if findWriter writers clientId then
    (writers.map fun entry => if entry.1 = clientId then (entry.1, env.now) else entry, true)
  else if env.created then (writers ++ [(clientId, env.now)], true)
  else (writers, false)

/-! ## The service -/

structure Answer where
  request : Invocation
  outcome : Outcome
  deriving DecidableEq

structure System where
  client : UInt64 → Client
  server : Server
  requests : List Bytes
  replies : UInt64 → List Bytes
  invoked : List Invocation
  answered : List Answer

inductive SystemMove where
  | client (id : UInt64) (move : Move)
  | send (id : UInt64) (c : Nat) (status : Status) (delivered : Bool)
  | receive (id : UInt64) (k : Nat)
  | loseRequest (k : Nat)
  | loseReply (id : UInt64) (k : Nat)
  | take (k : Nat) (received now : Int)
  | handlerReturns (outcome : Outcome)
  | reply (env : ReplyEnv)
  | evict (cutoff : Int)
  | restart
  deriving DecidableEq

def setClient (s : System) (id : UInt64) (client : Client) : System :=
  { s with client := Function.update s.client id client }

@[simp] theorem setClient_self (s : System) (id : UInt64) (client : Client) :
    (setClient s id client).client id = client := by
  simp [setClient]

theorem setClient_other {s : System} {id other : UInt64} {client : Client} (h : other ≠ id) :
    (setClient s id client).client other = s.client other := by
  simp [setClient, h]

/-- Client moves that involve no message: `send` and `receive` are the others. -/
def Move.internal : Move → Bool
  | .write _ _ => false
  | .dispatcherReads _ => false
  | _ => true

/-- The message that the `Write` of that caller carries. -/
def outgoing (id : UInt64) (client : Client) (c : Nat) : Option Bytes :=
  client.calls[c]?.bind fun call =>
    match call.pc with
    | .sending requestId => some (requestMessage id call requestId)
    | _ => none

/-- `Serve`, up to the call of the handler. -/
def serve (s : System) (message : Bytes) (received now : Int) : System :=
  match decode message requestMagic with
  | none => s
  | some (header, payload) =>
    if isExpired header received now then { s with server := { s.server with expired := s.server.expired + 1 } }
    else
      let request : Invocation := ⟨header.clientId, header.requestId, payload⟩
      { s with server := { s.server with pc := .handling request }, invoked := s.invoked ++ [request] }

def sendReply (s : System) (request : Invocation) (outcome : Outcome) (env : ReplyEnv) : System :=
  let (writers, found) := replyWriterLocked s.server.replyWriters request.clientId env
  let kept := if found && !env.ok then eraseWriter writers request.clientId else writers
  { s with
    server := { s.server with pc := .idle, replyWriters := kept }
    replies :=
      if found && env.delivered then
        Function.update s.replies request.clientId
          (s.replies request.clientId ++ [replyMessage request outcome.result])
      else s.replies }

def systemStep (spec : ServiceSpec) (s : System) : SystemMove → Option System
  | .client id move =>
    if move.internal then (step spec id (s.client id) move).map (setClient s id) else none
  | .send id c status delivered =>
    match outgoing id (s.client id) c, step spec id (s.client id) (.write c status) with
    | some message, some client =>
      some { setClient s id client with requests := if delivered then s.requests ++ [message] else s.requests }
    | _, _ => none
  | .receive id k =>
    match (s.replies id)[k]? with
    | none => none
    | some message =>
      (step spec id (s.client id) (.dispatcherReads message)).map fun client =>
        { setClient s id client with replies := Function.update s.replies id ((s.replies id).eraseIdx k) }
  | .loseRequest k => some { s with requests := s.requests.eraseIdx k }
  | .loseReply id k => some { s with replies := Function.update s.replies id ((s.replies id).eraseIdx k) }
  | .take k received now =>
    match s.server.pc, s.requests[k]? with
    | .idle, some message => some (serve { s with requests := s.requests.eraseIdx k } message received now)
    | _, _ => none
  | .handlerReturns outcome =>
    match s.server.pc with
    | .handling request =>
      some { s with
        server := { s.server with pc := .replying request outcome, handled := s.server.handled + 1 }
        answered := s.answered ++ [⟨request, outcome⟩] }
    | _ => none
  | .reply env =>
    match s.server.pc with
    | .replying request outcome => some (sendReply s request outcome env)
    | _ => none
  | .evict cutoff =>
    some { s with server := { s.server with
      replyWriters := s.server.replyWriters.filter fun entry => decide (cutoff ≤ entry.2) } }
  | .restart => some { s with server := {} }

def SystemInitial (s : System) : Prop :=
  s = ⟨fun _ => {}, {}, [], fun _ => [], [], []⟩

end PuppetMaster.Service
