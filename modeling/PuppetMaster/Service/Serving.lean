/-
  PuppetMaster.Service.Serving — who runs the handler of a server, and how `Close` waits for
  it (`Server::ServePending`, `Impl::Run`, `Impl::Serve`, `Server::Close`).

  A `kOwnThread` server has a worker; of a `kCaller` server any number of threads may call
  `ServePending`, also from the handler itself. Any thread may call `Close`; the first call,
  the one that finds `closed` unset, comes from outside the handler. A step is one access to
  what the threads share: a mutex, the atomic `serving_thread`, the reader, a counter. The
  code under `mutex` is one step, and nothing waits while it holds it.

  The reader answers `Read` as it likes, so requests may arrive at any time. What `Reply`
  does is in `Service.Server`; the heartbeat thread and the reply writers play no part here.

  History: `taken` is what `Read` returned, `invoked` the invocations of the handler and
  `fates` the requests that were counted or dropped, each with the request's place in `taken`. The
  counters are naturals: a server does not serve 2^64 requests.
-/

import Mathlib.Logic.Function.Basic
import PuppetMaster.Core.Message
import PuppetMaster.Service.Endpoints
import PuppetMaster.Service.Server

namespace PuppetMaster.Service.Serving

open PuppetMaster.Core PuppetMaster.Lib PuppetMaster.Service

inductive ServeMode where
  | ownThread
  | caller
  deriving DecidableEq, Repr

/-! ## Program counters -/

/-- In `Serve`, with a request's place in `taken`: `replying` has counted it. -/
inductive ServePc where
  | decoding (index : Nat) (message : Message)
  | handling (index : Nat) (request : Invocation)
  | replying (index : Nat)
  deriving DecidableEq

/-- The locals of the loop in `ServePending`. -/
structure Pass where
  budget : Nat
  taken : Nat := 0
  served : Nat := 0
  deriving DecidableEq, Repr

inductive ClosePc where
  | joiningHeartbeat
  | announcing
  | joiningWorker
  | asking
  | locking
  | unlocking
  | clearing
  deriving DecidableEq, Repr

/-- `locking`, `unlocking`: `serve_mutex`. `checking`: `is_closed()`, before the pass. `entering` and
    `leaving`: `serving_thread`. `relocking`: a handler's call that locks the mutex it holds. -/
inductive ThreadPc where
  | outside
  | locking (limit : Nat)
  | checking (limit : Nat)
  | entering (limit : Nat)
  | counting (limit : Nat)
  | looping (pass : Pass)
  | reading (pass : Pass)
  | serving (pass : Pass) (serve : ServePc)
  | relocking (pass : Pass) (serve : ServePc)
  | leaving (served : Nat)
  | unlocking (result : Result Nat)
  | closing (pc : ClosePc)

/-- `Run`; a `kCaller` server has no worker. -/
inductive WorkerPc where
  | absent
  | waiting
  | reading
  | serving (serve : ServePc)
  | checking
  | finished
  deriving DecidableEq

/-! ## The state -/

inductive Fate where
  | handled
  | expired
  | malformed
  deriving DecidableEq, Repr

structure State where
  mode : ServeMode
  serveMutex : Option Nat := none
  servingThread : Option Nat := none
  closed : Bool := false
  pending : Bool := false
  worker : WorkerPc
  threads : Nat → ThreadPc := fun _ => .outside
  handled : Nat := 0
  expired : Nat := 0
  taken : List Message := []
  invoked : List (Nat × Invocation) := []
  fates : List (Nat × Fate) := []
  closeReturned : Bool := false

def initial (mode : ServeMode) : State :=
  { mode, worker := match mode with | .ownThread => .waiting | .caller => .absent }

def IsInitial (s : State) : Prop := ∃ mode, s = initial mode

/-- What the surroundings answer: `PendingMessageCount`, `Read`, two readings of the clock, and the handler. -/
structure Answer where
  queued : Option Nat := none
  message : Option Message := none
  first : Int := 0
  now : Int := 0
  outcome : Outcome := .threwUnknown

/-! ## Serve -/

/-- `Serve` goes on, or returns whether the handler ran. -/
inductive Served where
  | on (serve : ServePc)
  | returned (ran : Bool)

/-- The reception time, or the clock where the transport has none. -/
def receivedAt (message : Message) (first : Int) : Int :=
  if message.metadata.receptionTimestamp = 0 then first else message.metadata.receptionTimestamp

def serve (s : State) (answer : Answer) : ServePc → State × Served
  | .decoding index message =>
    match decode message.payload requestMagic with
    | none => ({ s with fates := s.fates ++ [(index, .malformed)] }, .returned false)
    | some (header, payload) =>
      if isExpired header (receivedAt message answer.first) answer.now then
        ({ s with expired := s.expired + 1, fates := s.fates ++ [(index, .expired)] }, .returned false)
      else
        let request : Invocation := ⟨header.clientId, header.requestId, payload⟩
        ({ s with invoked := s.invoked ++ [(index, request)] }, .on (.handling index request))
  -- however the handler ends, the request counts as handled
  | .handling index _ =>
    ({ s with handled := s.handled + 1, fates := s.fates ++ [(index, .handled)] }, .on (.replying index))
  | .replying _ => (s, .returned true)

/-! ## ServePending -/

def goto (s : State) (t : Nat) (pc : ThreadPc) : State := { s with threads := Function.update s.threads t pc }

def failedPrecondition (spec : ServiceDeclaration) (message : String) : Status :=
  .error .failedPrecondition (describe spec.toServiceSpec ++ text message)

/-- The checks before `serve_mutex`: what a call is refused with. -/
def refused (spec : ServiceDeclaration) (s : State) (t : Nat) : Option Status :=
  if s.mode ≠ .caller then
    some (failedPrecondition spec ": ServePending needs ServeMode::kCaller; this server serves on its own thread")
  else if s.servingThread = some t then some (failedPrecondition spec ": ServePending called from its own handler")
  else none

/-- A call, from outside or from the handler; a refused one returns at once. -/
def servePending (spec : ServiceDeclaration) (s : State) (t : Nat) (limit : Nat) : Option State :=
  match s.threads t with
  | .outside => some (if (refused spec s t).isSome then s else goto s t (.locking limit))
  | .serving pass (.handling index request) =>
    some (if (refused spec s t).isSome then s else goto s t (.relocking pass (.handling index request)))
  | _ => none

/-- `limit`, or what is queued now, or the queue's depth where the transport cannot tell. -/
def budgetOf (queueDepth limit : Nat) (queued : Option Nat) : Nat :=
  if limit = 0 then queued.getD queueDepth else limit

def closeStep (s : State) (t : Nat) : ClosePc → Option State
  | .joiningHeartbeat => some (goto s t (.closing .announcing))
  | .announcing => some (goto s t (.closing .joiningWorker))
  | .joiningWorker =>
    if s.worker = .absent ∨ s.worker = .finished then some (goto s t (.closing .asking)) else none
  | .asking => some (goto s t (.closing (if s.servingThread ≠ some t then .locking else .clearing)))
  | .locking =>
    if s.serveMutex = none then some { goto s t (.closing .unlocking) with serveMutex := some t } else none
  | .unlocking => some { goto s t (.closing .clearing) with serveMutex := none }
  | .clearing => some { goto s t .outside with closeReturned := true }

def threadStep (spec : ServiceDeclaration) (s : State) (t : Nat) (answer : Answer) : Option State :=
  match s.threads t with
  | .outside => none
  | .relocking _ _ => none
  | .locking limit =>
    if s.serveMutex = none then some { goto s t (.checking limit) with serveMutex := some t } else none
  | .checking limit =>
    some (goto s t (if s.closed then .unlocking (.error (failedPrecondition spec ": server is closed")) else .entering limit))
  | .entering limit => some { goto s t (.counting limit) with servingThread := some t }
  | .counting limit => some (goto s t (.looping { budget := budgetOf spec.queueDepth limit answer.queued }))
  | .looping pass =>
    some (goto s t (if pass.taken < pass.budget ∧ s.closed = false then .reading pass else .leaving pass.served))
  | .reading pass =>
    match answer.message with
    | none => some (goto s t (.leaving pass.served))
    | some message =>
      some { goto s t (.serving { pass with taken := pass.taken + 1 } (.decoding s.taken.length message)) with
        taken := s.taken ++ [message] }
  | .serving pass pc =>
    let (s', served) := serve s answer pc
    match served with
    | .on pc' => some (goto s' t (.serving pass pc'))
    | .returned ran => some (goto s' t (.looping { pass with served := if ran then pass.served + 1 else pass.served }))
  | .leaving served => some { goto s t (.unlocking (.ok served)) with servingThread := none }
  | .unlocking _ => some { goto s t .outside with serveMutex := none }
  | .closing pc => closeStep s t pc

/-! ## Close -/

/-- The call of `Close`, up to the end of the section that sets `closed`. -/
def close (s : State) (t : Nat) : Option State :=
  match s.threads t with
  | .outside => if s.closed then some s else some { goto s t (.closing .joiningHeartbeat) with closed := true }
  | .serving _ (.handling _ _) => if s.closed then some s else none
  | _ => none

/-! ## The worker -/

def workerStep (s : State) (answer : Answer) : Option State :=
  match s.worker with
  | .absent => none
  | .finished => none
  -- woken by the callback or by `Close`, or after the poll interval
  | .waiting => some (if s.closed then { s with worker := .finished } else { s with pending := false, worker := .reading })
  | .reading =>
    match answer.message with
    | none => some { s with worker := .waiting }
    | some message =>
      some { s with worker := .serving (.decoding s.taken.length message), taken := s.taken ++ [message] }
  | .serving pc =>
    let (s', served) := serve s answer pc
    match served with
    | .on pc' => some { s' with worker := .serving pc' }
    | .returned _ => some { s' with worker := .checking }
  | .checking => some { s with worker := if s.closed then .finished else .reading }

/-! ## Moves -/

inductive Move where
  | arrive
  | worker (answer : Answer)
  | servePending (t : Nat) (limit : Nat)
  | close (t : Nat)
  | thread (t : Nat) (answer : Answer)

def step (spec : ServiceDeclaration) (s : State) : Move → Option State
  | .arrive => some { s with pending := true }
  | .worker answer => workerStep s answer
  | .servePending t limit => servePending spec s t limit
  | .close t => close s t
  | .thread t answer => threadStep spec s t answer

end PuppetMaster.Service.Serving
