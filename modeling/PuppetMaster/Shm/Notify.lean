/-
  PuppetMaster.Shm.Notify — how a committed message reaches the readers of one topic in one
  process (shm_transport.cpp, platform_linux.cpp).

  Publishers, here and in other processes: `commit` stores the next sequence into
  `write_seq`, under the writer lock; then `Committed` calls NotifyAll, which adds one to the
  32-bit word (`notify`) and makes the futex wake (`wake`). What fails or dies before its
  commit changes nothing here, and after its commit a publisher goes on to the wake. Close
  and RetireOnce, of any process, notify too: `notifyOther` and `wakeOther`.

  The dispatcher (`dispatch`, one statement of DispatchLoop, Fanout or Wait at a time) loads
  the word, then the sequence, announces a new sequence to a copy of `readers_`, and waits on
  the word it loaded. The kernel compares the word again before it lets the thread sleep, and
  wakes it for no reason too (`dispatcherWakes`: the poll interval, a signal).

  Endpoints: CreateReader reads `write_seq` (`create`) and then calls AddReader (`add`), which
  starts the dispatcher for the first reader; the destructor is `remove`, `closeState`,
  `closeNotify`; TopicState::Close is `close` and then, for each reader it took, its Close.

  Reads: any number of threads in ShmReader::Read, several on one reader if they like. A Read
  holds the reader's mutex from the top of its loop until it sleeps or returns. One pass of
  TryRead is one move: the cursor belongs to the holder of the mutex, and what the pass finds
  in the slot is the move's argument, so that every ring is covered.

  Sequences and generations are naturals: a run does not use up 64 bits.

  History: `notifications` counts the additions to the word and `loadedAt` what it was at the
  dispatcher's last Load; `announced` lists the sequences announced to a reader; `fanouts` has
  each finished Fanout with what it did for each reader.
-/

import PuppetMaster.Lib.Run
import PuppetMaster.Shm.Segment

namespace PuppetMaster.Shm.Notify

open PuppetMaster.Lib PuppetMaster.Shm

/-! ## The parties -/

/-- Where a publisher is: outside, before the addition to the word, before the futex wake. -/
inductive PublisherPc where
  | idle
  | committed
  | notified
  deriving DecidableEq, Repr

structure ReaderState where
  cursor : Nat := 1
  depth : Nat := 1
  /-- Newest sequence already announced by callback. -/
  notifiedUpTo : Nat := 0
  /-- Bumped on new data, wakes blocking reads. -/
  generation : Nat := 0
  callback : Option Nat := none
  closed : Bool := false
  deriving DecidableEq, Repr

/-- A reader from CreateReader to the end of its destructor. -/
inductive Life where
  | absent
  | created
  /-- AddReader found the topic closed. -/
  | refused
  | opened
  /-- RemoveReader is done. -/
  | removed
  /-- Its state is closed, the notification is still to come. -/
  | closing
  | gone
  deriving DecidableEq, Repr

structure Endpoint extends ReaderState where
  life : Life := .absent
  /-- The thread that holds the mutex of the state. -/
  mutex : Option Nat := none
  announced : List Nat := []
  deriving DecidableEq, Repr

/-- What Fanout does for one reader: what it found under the mutex, and its calls. -/
structure Visit where
  reader : Nat
  notifiedUpTo : Nat
  depth : Nat
  callback : Option Nat
  calls : Nat
  deriving DecidableEq, Repr

structure Fanout where
  newest : Nat
  readers : List Nat
  visits : List Visit
  deriving DecidableEq, Repr

def Fanout.add (f : Fanout) (v : Visit) : Fanout := { f with visits := f.visits ++ [v] }

/-- Where the dispatcher is; each case names what it does next. -/
inductive DispatcherPc where
  | absent
  | top
  | loading
  | sequencing
  | copying
  | visiting (f : Fanout) (rest : List Nat)
  | notifying (f : Fanout) (v : Visit) (rest : List Nat)
  | calling (f : Fanout) (v : Visit) (left : Nat) (rest : List Nat)
  | rechecking
  | waiting
  | futex
  | asleep
  | returned
  deriving DecidableEq, Repr

structure ReadOptions where
  wait : Bool
  /-- A timeout above zero. -/
  timed : Bool
  deriving DecidableEq, Repr

/-- Where a thread is in Read; it holds the mutex from `looping` to `waiting`. -/
inductive ReadPc where
  | idle
  | entering (r : Nat) (o : ReadOptions)
  | looping (r : Nat) (o : ReadOptions)
  | trying (r : Nat) (o : ReadOptions) (observed passes : Nat)
  | checking (r : Nat) (o : ReadOptions) (observed : Nat)
  | waiting (r : Nat) (o : ReadOptions) (observed : Nat)
  | asleep (r : Nat) (o : ReadOptions) (observed : Nat)
  | woken (r : Nat) (o : ReadOptions) (observed : Nat)
  | expired (r : Nat) (o : ReadOptions) (observed : Nat)
  deriving DecidableEq, Repr

/-- `cv.notify_all` of reader `r`, for one thread. -/
def ReadPc.wake (r : Nat) : ReadPc → ReadPc
  | .asleep r' o observed => if r' = r then .woken r' o observed else .asleep r' o observed
  | pc => pc

/-- TopicState::Close, past the exchange of `closed_`. -/
inductive ClosePc where
  | idle
  | closing (rest : List Nat)
  | notifying (r : Nat) (rest : List Nat)
  deriving DecidableEq, Repr

/-- The readers Close has still to notify. -/
def ClosePc.owed : ClosePc → List Nat
  | .idle => []
  | .closing rest => rest
  | .notifying r rest => r :: rest

structure St where
  writeSeq : Nat
  word : UInt32
  publishers : Nat → PublisherPc
  readers : List Nat
  closed : Bool
  closer : ClosePc
  dispatcher : DispatcherPc
  /-- The dispatcher's variables. -/
  lastSeen : Nat
  observed : UInt32
  endpoints : Nat → Endpoint
  reads : Nat → ReadPc
  notifications : Nat
  loadedAt : Nat
  fanouts : List Fanout

/-- A topic just opened, on a segment in which there may be messages already. -/
def start (writeSeq : Nat) (word : UInt32) : St where
  writeSeq := writeSeq
  word := word
  publishers := fun _ => .idle
  readers := []
  closed := false
  closer := .idle
  dispatcher := .absent
  lastSeen := 0
  observed := word
  endpoints := fun _ => {}
  reads := fun _ => .idle
  notifications := 0
  loadedAt := 0
  fanouts := []

def init (s : St) : Prop := ∃ writeSeq word, s = start writeSeq word

inductive Act where
  | commit (w : Nat)
  | notify (w : Nat)
  | wake (w : Nat)
  | notifyOther
  | wakeOther
  | create (r depth : Nat)
  | add (r : Nat)
  | remove (r : Nat)
  | closeState (r : Nat)
  | closeNotify (r : Nat)
  | setCallback (r : Nat) (callback : Option Nat)
  | close
  | closerState
  | closerNotify
  | read (t r : Nat) (o : ReadOptions)
  | advance (t : Nat) (found : Bool)
  | spurious (t : Nat)
  | expire (t : Nat)
  | dispatch
  | dispatcherWakes

def setPublisher (s : St) (w : Nat) (pc : PublisherPc) : St :=
  { s with publishers := Function.update s.publishers w pc }

def setEndpoint (s : St) (r : Nat) (e : Endpoint) : St := { s with endpoints := Function.update s.endpoints r e }

def setRead (s : St) (t : Nat) (pc : ReadPc) : St := { s with reads := Function.update s.reads t pc }

/-- `cv.notify_all` of reader `r`. -/
def notifyReads (s : St) (r : Nat) : St := { s with reads := fun t => (s.reads t).wake r }

/-- `word_->fetch_add(1)`. -/
def addToWord (s : St) : St := { s with word := s.word + 1, notifications := s.notifications + 1 }

/-- FUTEX_WAKE: the dispatcher returns from Wait. -/
def futexWake (s : St) : St := { s with dispatcher := if s.dispatcher = .asleep then .top else s.dispatcher }

/-! ## Publishers -/

def publisherStep (s : St) : Act → Option St
  | .commit w =>
    if s.publishers w = .idle then some (setPublisher { s with writeSeq := s.writeSeq + 1 } w .committed) else none
  | .notify w => if s.publishers w = .committed then some (setPublisher (addToWord s) w .notified) else none
  | .wake w => if s.publishers w = .notified then some (setPublisher (futexWake s) w .idle) else none
  | .notifyOther => some (addToWord s)
  | .wakeOther => some (futexWake s)
  | _ => none

/-! ## Endpoints -/

/-- `ReaderState::Close`, up to its notification. -/
def Endpoint.close (e : Endpoint) : Endpoint := { e with closed := true, callback := none }

def endpointStep (s : St) : Act → Option St
  | .create r depth =>
    if (s.endpoints r).life = .absent then
      some (setEndpoint s r
        { cursor := s.writeSeq + 1, depth := depth, notifiedUpTo := s.writeSeq, life := .created })
    else none
  | .add r =>
    if (s.endpoints r).life = .created then
      if s.closed then some (setEndpoint s r { s.endpoints r with life := .refused })
      else
        some { setEndpoint s r { s.endpoints r with life := .opened } with
          readers := s.readers ++ [r]
          dispatcher := if s.dispatcher = .absent then .top else s.dispatcher
          lastSeen := if s.dispatcher = .absent then s.writeSeq else s.lastSeen }
    else none
  | .remove r =>
    if (s.endpoints r).life = .opened then
      some { setEndpoint s r { s.endpoints r with life := .removed } with readers := s.readers.filter (· ≠ r) }
    else none
  | .closeState r =>
    if (s.endpoints r).life = .removed ∧ (s.endpoints r).mutex = none then
      some (setEndpoint s r { (s.endpoints r).close with life := .closing })
    else none
  | .closeNotify r =>
    if (s.endpoints r).life = .closing then
      some (notifyReads (setEndpoint s r { s.endpoints r with life := .gone }) r)
    else none
  | .setCallback r callback =>
    if (s.endpoints r).life = .opened ∧ (s.endpoints r).mutex = none then
      if (s.endpoints r).closed ∨ s.closed then some s
      else some (setEndpoint s r { s.endpoints r with callback := callback })
    else none
  | .close =>
    if s.closed then some s else some { s with closed := true, readers := [], closer := .closing s.readers }
  | .closerState =>
    match s.closer with
    | .closing (r :: rest) =>
      if (s.endpoints r).mutex = none then
        some { setEndpoint s r (s.endpoints r).close with closer := .notifying r rest }
      else none
    | _ => none
  | .closerNotify =>
    match s.closer with
    | .notifying r rest => some { notifyReads s r with closer := .closing rest }
    | _ => none
  | _ => none

variable (g : Geometry)

/-! ## Reads -/

def pendingCount (s : St) (r : Nat) : Nat :=
  if s.writeSeq < (s.endpoints r).cursor then 0
  else s.writeSeq - clampCursor (s.endpoints r).cursor s.writeSeq (effectiveDepth g (s.endpoints r).depth) + 1

/-- The predicate of the wait. -/
def ready (s : St) (r observed : Nat) : Bool :=
  (s.endpoints r).closed || s.closed || decide ((s.endpoints r).generation ≠ observed)

/-- Return, or sleep: thread `t` lets go of the mutex of reader `r`. -/
def release (s : St) (t r : Nat) (pc : ReadPc) : St :=
  setRead (setEndpoint s r { s.endpoints r with mutex := none }) t pc

def acquire (s : St) (t r : Nat) (pc : ReadPc) : St :=
  setRead (setEndpoint s r { s.endpoints r with mutex := some t }) t pc

/-- No message: the Read returns, or goes on to Pending. -/
def missed (s : St) (t r : Nat) (o : ReadOptions) (observed : Nat) : St :=
  if o.wait then setRead s t (.checking r o observed) else release s t r .idle

/-- One pass of TryRead, `passes` still allowed after it. -/
def pass (s : St) (t r : Nat) (o : ReadOptions) (observed passes : Nat) (found : Bool) : St :=
  let e := s.endpoints r
  if s.writeSeq < e.cursor then missed s t r o observed
  else
    let moved := setEndpoint s r
      { e with cursor := clampCursor e.cursor s.writeSeq (effectiveDepth g e.depth) + 1 }
    if found then release moved t r .idle
    else if passes = 0 then missed moved t r o observed
    else setRead moved t (.trying r o observed (passes - 1))

def advanceStep (s : St) (t : Nat) (found : Bool) : Option St :=
  match s.reads t with
  | .idle | .asleep _ _ _ => none
  | .entering r o => if (s.endpoints r).mutex = none then some (acquire s t r (.looping r o)) else none
  | .looping r o =>
    if (s.endpoints r).closed ∨ s.closed then some (release s t r .idle)
    else some (setRead s t (.trying r o (s.endpoints r).generation (maxPasses g - 1)))
  | .trying r o observed passes => some (pass g s t r o observed passes found)
  | .checking r o observed =>
    if pendingCount g s r ≠ 0 then some (setRead s t (.looping r o))
    else some (setRead s t (.waiting r o observed))
  | .waiting r o observed =>
    if ready s r observed then some (setRead s t (.looping r o)) else some (release s t r (.asleep r o observed))
  | .woken r o observed =>
    if (s.endpoints r).mutex = none then some (acquire s t r (.waiting r o observed)) else none
  | .expired r o observed =>
    if (s.endpoints r).mutex = none then
      if ready s r observed then some (acquire s t r (.looping r o)) else some (setRead s t .idle)
    else none

def readStep (s : St) : Act → Option St
  | .read t r o =>
    if s.reads t = .idle ∧ (s.endpoints r).life = .opened then some (setRead s t (.entering r o)) else none
  | .advance t found => advanceStep g s t found
  | .spurious t =>
    match s.reads t with
    | .asleep r o observed => some (setRead s t (.woken r o observed))
    | _ => none
  | .expire t =>
    match s.reads t with
    | .asleep r o observed => if o.timed then some (setRead s t (.expired r o observed)) else none
    | _ => none
  | _ => none

/-! ## The dispatcher -/

/-- What Fanout finds of reader `r`. -/
def visitOf (s : St) (r : Nat) : Visit :=
  ⟨r, (s.endpoints r).notifiedUpTo, (s.endpoints r).depth, (s.endpoints r).callback, 0⟩

/-- The sequences Fanout announces to a reader. -/
def Endpoint.announce (e : Endpoint) (newest : Nat) : Endpoint :=
  { e with
    notifiedUpTo := newest
    generation := e.generation + 1
    announced := e.announced ++ List.range' (e.notifiedUpTo + 1) (newest - e.notifiedUpTo) }

/-- The part of Fanout under the mutex of reader `r`. -/
def visit (s : St) (f : Fanout) (r : Nat) (rest : List Nat) : Option St :=
  if (s.endpoints r).mutex ≠ none then none
  else if (s.endpoints r).closed ∨ f.newest ≤ (s.endpoints r).notifiedUpTo then
    some { s with dispatcher := .visiting (f.add (visitOf s r)) rest }
  else
    some { setEndpoint s r ((s.endpoints r).announce f.newest) with dispatcher := .notifying f (visitOf s r) rest }

variable (pollInterval : Int)

def dispatcherStep (s : St) : Option St :=
  match s.dispatcher with
  | .absent | .asleep | .returned => none
  | .top => some { s with dispatcher := if s.closed then .returned else .loading }
  | .loading => some { s with dispatcher := .sequencing, observed := s.word, loadedAt := s.notifications }
  | .sequencing =>
    if s.writeSeq ≠ s.lastSeen then some { s with lastSeen := s.writeSeq, dispatcher := .copying }
    else some { s with dispatcher := .rechecking }
  | .copying => some { s with dispatcher := .visiting ⟨s.lastSeen, s.readers, []⟩ s.readers }
  | .visiting f [] => some { s with fanouts := s.fanouts ++ [f], dispatcher := .rechecking }
  | .visiting f (r :: rest) => visit s f r rest
  | .notifying f v rest =>
    some { notifyReads s v.reader with dispatcher := .calling f v (min (f.newest - v.notifiedUpTo) v.depth) rest }
  | .calling f v left rest =>
    if v.callback ≠ none ∧ left ≠ 0 then
      some { s with dispatcher := .calling f { v with calls := v.calls + 1 } (left - 1) rest }
    else some { s with dispatcher := .visiting (f.add v) rest }
  | .rechecking => some { s with dispatcher := if s.closed then .returned else .waiting }
  | .waiting => some { s with dispatcher := if s.word ≠ s.observed ∨ pollInterval ≤ 0 then .top else .futex }
  | .futex => some { s with dispatcher := if s.word ≠ s.observed then .top else .asleep }

def step (s : St) (a : Act) : Option St :=
  match a with
  | .commit _ | .notify _ | .wake _ | .notifyOther | .wakeOther => publisherStep s a
  | .read _ _ _ | .advance _ _ | .spurious _ | .expire _ => readStep g s a
  | .dispatch => dispatcherStep pollInterval s
  | .dispatcherWakes => if s.dispatcher = .asleep then some { s with dispatcher := .top } else none
  | _ => endpointStep s a

/-- Fewer than 2^32 notifications between a Load and the Wait that follows it. -/
def fewNotifications (s : St) : Act → Prop
  | .dispatch => s.dispatcher = .futex → s.notifications - s.loadedAt < 2 ^ 32
  | _ => True

/-! ## What is stated about it -/

def PublishersIdle (s : St) : Prop := ∀ w, s.publishers w = .idle

/-- The destructor of reader `r`, or Close, has begun and has still to notify its Reads. -/
def WakeOwed (s : St) (r : Nat) : Prop :=
  (s.endpoints r).life = .removed ∨ (s.endpoints r).life = .closing ∨ r ∈ s.closer.owed

/-- How often the callback is due: once for each message not announced yet, as far as the
    reader can still read them. -/
def Visit.due (v : Visit) (newest : Nat) : Nat :=
  if v.callback = none then 0 else min (newest - v.notifiedUpTo) v.depth

/-- A Fanout that did its work: each reader visited once, its callback called as often as due. -/
structure Fanout.Complete (f : Fanout) : Prop where
  nodup : f.readers.Nodup
  visited : f.visits.map (·.reader) = f.readers
  called : ∀ v ∈ f.visits, v.calls = v.due f.newest

end PuppetMaster.Shm.Notify
