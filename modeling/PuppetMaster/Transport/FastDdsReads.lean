/-
  PuppetMaster.Transport.FastDdsReads — the threads of one FastDDS reader
  (fastdds_transport.cpp: `FastDdsReader::Read`, `TryTake` and `TakeFrom`, the listener and
  `ReaderState::Shutdown`), one section at a time.

  A section under `signal_mutex` is one move. A Read holds `entity_mutex` from its `locks` to
  its end or its miss; a call of `take_next_sample` is one move. A Read of the thread that
  runs this reader's listener (`inListener`) takes without `entity_mutex`. `wakes` is a wake-up
  for no reason, `expires` a deadline that passes.

  DDS calls the listener after a sample came (`owed`; more often too), one call at a time. A
  call has DDS's own lock, for which `take_next_sample` of another thread, a sample that comes
  and the deletion of the reader wait. DDS drops the oldest sample when it likes.

  That lock, that `take_next_sample` gives the oldest sample, that there is one listener call at a
  time and that `delete_datareader` does not fail are assumptions about DDS, made by the steps.
  Sequences and generations are naturals: a run has fewer than 2^64 samples.
-/

import PuppetMaster.Core.Status
import PuppetMaster.Lib.Lists
import PuppetMaster.Lib.Run

namespace PuppetMaster.FastDds.Reads

open PuppetMaster.Core PuppetMaster.Lib

/-! ## The parties -/

structure ReadOptions where
  wait : Bool
  /-- A timeout above zero. -/
  timed : Bool
  deriving DecidableEq, Repr

/-- A sample in DDS. One that only tells of a dispose or an unregister is not `valid`. -/
structure Sample where
  arrival : Nat
  payload : Bytes
  valid : Bool
  deriving DecidableEq, Repr

structure Message where
  sequence : Nat
  sample : Sample
  deriving DecidableEq, Repr

/-- Where a thread is in `Read`. `observed` is the generation it saw before it tried to take. -/
inductive ReadPc where
  | outside (answer : Option (Result Message))
  | entering (options : ReadOptions)
  | locking (options : ReadOptions) (observed : Nat)
  | taking (options : ReadOptions) (observed : Nat)
  | taken (options : ReadOptions) (sample : Sample)
  | missed (options : ReadOptions) (observed : Nat)
  | asleep (options : ReadOptions) (observed : Nat)
  | woken (options : ReadOptions) (observed : Nat)
  | expired (options : ReadOptions) (observed : Nat)
  deriving DecidableEq

/-- `cv.notify_all`, for one thread. -/
def ReadPc.wake : ReadPc → ReadPc
  | .asleep options observed => .woken options observed
  | pc => pc

/-- A call of the listener: before its `notify_all`, with the callback it copied; in the callback. -/
inductive ListenerPc where
  | idle
  | notifying (thread : Nat) (callback : Bool)
  | calling (thread : Nat)
  deriving DecidableEq, Repr

/-- `Shutdown`, by the section it finished last. -/
inductive CloserPc where
  | idle
  | closed
  | notified
  | detached
  | finished
  deriving DecidableEq, Repr

structure ReaderState where
  callback : Bool := false
  generation : Nat := 0
  closed : Bool := false
  entityMutex : Option Nat := none
  /-- The pointer to the `DataReader` is set. -/
  attached : Bool := true
  sequence : Nat := 0
  threads : List ReadPc
  closer : CloserPc := .idle
  listener : ListenerPc := .idle
  /-- The unread samples of DDS, oldest first. -/
  queue : List Sample := []
  /-- A sample came and the listener was not called since. -/
  owed : Bool := false
  arrivals : Nat := 0
  /-- What became of the samples that are no more in the queue. -/
  delivered : List Message := []
  skipped : List Sample := []
  dropped : List Sample := []

/-! ## The sections -/

def readerIsClosed : Status := .error .unavailable (text "FastDDS reader is closed")

def noMessage : Status := .error .unavailable (text "no FastDDS message available")

def timedOut : Status := .error .deadlineExceeded (text "timed out waiting for FastDDS message")

namespace ReaderState

def setThread (s : ReaderState) (thread : Nat) (pc : ReadPc) : ReaderState := { s with threads := s.threads.set thread pc }

def answer (s : ReaderState) (thread : Nat) (answer : Result Message) : ReaderState :=
  s.setThread thread (.outside (some answer))

/-- `g_listener_scope.state` is this state on the thread. -/
def inListener (s : ReaderState) (thread : Nat) : Bool := decide (s.listener = .calling thread)

/-- The thread runs the listener, but not the callback. -/
def busy (s : ReaderState) (thread : Nat) : Bool :=
  match s.listener with
  | .notifying other _ => decide (other = thread)
  | _ => false

def unlock (s : ReaderState) (thread : Nat) : ReaderState :=
  { s with entityMutex := if s.entityMutex = some thread then none else s.entityMutex }

/-- `TryTake` returned an error, which is always `kUnavailable`. -/
def miss (s : ReaderState) (thread : Nat) (options : ReadOptions) (observed : Nat) (status : Status) : ReaderState :=
  if options.wait then s.setThread thread (.missed options observed) else s.answer thread (.error status)

/-- The predicate of the wait. -/
def ready (s : ReaderState) (observed : Nat) : Bool := s.closed || decide (s.generation ≠ observed)

def notifyAll (s : ReaderState) : ReaderState := { s with threads := s.threads.map ReadPc.wake }

/-- The listener's lock is free, or the thread runs the listener. -/
def mayTake (s : ReaderState) (thread : Nat) : Bool := s.inListener thread || decide (s.listener = .idle)

end ReaderState

inductive Move where
  /-- The threads in `Read`. -/
  | reads (thread : Nat) (options : ReadOptions)
  | enters (thread : Nat)
  | locks (thread : Nat)
  | takes (thread : Nat)
  | numbers (thread : Nat)
  | waits (thread : Nat)
  | wakes (thread : Nat)
  | expires (thread : Nat)
  | resumes (thread : Nat)
  | setsCallback (callback : Bool)
  /-- DDS, and the listener on one of its threads. -/
  | arrives (payload : Bytes) (valid : Bool)
  | drops
  | hears (thread : Nat)
  | notifies
  | returns
  /-- The sections of `Shutdown`. -/
  | closes
  | notifiesClosed
  | detaches
  | deletes
  deriving DecidableEq

def step (s : ReaderState) : Move → Option ReaderState
  | .reads thread options =>
    match s.threads[thread]? with
    | some (.outside _) => if s.busy thread then none else some (s.setThread thread (.entering options))
    | _ => none
  | .enters thread =>
    match s.threads[thread]? with
    | some (.entering options) =>
      some (if s.closed then s.answer thread (.error readerIsClosed) else s.setThread thread (.locking options s.generation))
    | _ => none
  | .locks thread =>
    match s.threads[thread]? with
    | some (.locking options observed) =>
      if s.inListener thread then some (s.setThread thread (.taking options observed))
      else if s.entityMutex ≠ none then none
      else if s.attached then
        some ({ s with entityMutex := some thread }.setThread thread (.taking options observed))
      else some (s.miss thread options observed readerIsClosed)
    | _ => none
  | .takes thread =>
    match s.threads[thread]? with
    | some (.taking options observed) =>
      if s.mayTake thread then
        match s.queue with
        | [] => some ((s.unlock thread).miss thread options observed noMessage)
        | sample :: rest =>
          if sample.valid then some ({ s with queue := rest }.setThread thread (.taken options sample))
          else some { s with queue := rest, skipped := s.skipped ++ [sample] }
      else none
    | _ => none
  | .numbers thread =>
    match s.threads[thread]? with
    | some (.taken _ sample) =>
      let message : Message := { sequence := s.sequence + 1, sample }
      some (({ s with sequence := s.sequence + 1, delivered := s.delivered ++ [message] }.unlock thread).answer thread
        (.ok message))
    | _ => none
  | .waits thread =>
    match s.threads[thread]? with
    | some (.missed options observed) =>
      some (s.setThread thread (if s.ready observed then .entering options else .asleep options observed))
    | _ => none
  | .wakes thread =>
    match s.threads[thread]? with
    | some (.asleep options observed) => some (s.setThread thread (.woken options observed))
    | _ => none
  | .expires thread =>
    match s.threads[thread]? with
    | some (.asleep options observed) =>
      if options.timed then some (s.setThread thread (.expired options observed)) else none
    | _ => none
  | .resumes thread =>
    match s.threads[thread]? with
    | some (.woken options observed) =>
      some (s.setThread thread (if s.ready observed then .entering options else .asleep options observed))
    | some (.expired options observed) =>
      some (if s.ready observed then s.setThread thread (.entering options) else s.answer thread (.error timedOut))
    | _ => none
  | .setsCallback callback => some (if s.closed then s else { s with callback })
  | .arrives payload valid =>
    if s.closer ≠ .finished ∧ s.listener = .idle then
      some { s with
        queue := s.queue ++ [{ arrival := s.arrivals, payload, valid }]
        arrivals := s.arrivals + 1
        owed := true }
    else none
  | .drops =>
    match s.queue with
    | [] => none
    | sample :: rest => some { s with queue := rest, dropped := s.dropped ++ [sample] }
  | .hears thread =>
    match s.threads[thread]? with
    | some (.outside _) =>
      if s.closer ≠ .finished ∧ s.listener = .idle then
        some (if s.closed then { s with owed := false }
          else { s with owed := false, generation := s.generation + 1, listener := .notifying thread s.callback })
      else none
    | _ => none
  | .notifies =>
    match s.listener with
    | .notifying thread callback =>
      some { s.notifyAll with listener := if callback then .calling thread else .idle }
    | _ => none
  | .returns =>
    match s.listener with
    | .calling thread =>
      match s.threads[thread]? with
      | some (.outside _) => some { s with listener := .idle }
      | _ => none
    | _ => none
  | .closes => if s.closer = .idle then some { s with closed := true, callback := false, closer := .closed } else none
  | .notifiesClosed => if s.closer = .closed then some { s.notifyAll with closer := .notified } else none
  | .detaches =>
    if s.closer = .notified ∧ s.entityMutex = none then some { s with attached := false, closer := .detached } else none
  | .deletes => if s.closer = .detached ∧ s.listener = .idle then some { s with closer := .finished } else none

/-- What a move of thread `i` from one place to another rests on, where it changes nothing else. -/
inductive Goes (s : ReaderState) (i : Nat) : Move → ReadPc → ReadPc → Prop
  | reads {a o} : s.busy i = false → Goes s i (.reads i o) (.outside a) (.entering o)
  | closed {o} : s.closed = true → Goes s i (.enters i) (.entering o) (.outside (some (.error readerIsClosed)))
  | enters {o} : s.closed = false → Goes s i (.enters i) (.entering o) (.locking o s.generation)
  | inListener {o g} : s.inListener i = true → Goes s i (.locks i) (.locking o g) (.taking o g)
  | gone {o g} : s.inListener i = false → s.attached = false → o.wait = true → Goes s i (.locks i) (.locking o g) (.missed o g)
  | returns {o g} : s.inListener i = false → Goes s i (.locks i) (.locking o g) (.outside (some (.error readerIsClosed)))
  | retries {o g} : s.ready g = true → Goes s i (.waits i) (.missed o g) (.entering o)
  | sleeps {o g} : s.ready g = false → Goes s i (.waits i) (.missed o g) (.asleep o g)
  | wakes {o g} : Goes s i (.wakes i) (.asleep o g) (.woken o g)
  | expires {o g} : Goes s i (.expires i) (.asleep o g) (.expired o g)
  | resumes {o g} : s.ready g = true → Goes s i (.resumes i) (.woken o g) (.entering o)
  | sleepsOn {o g} : s.ready g = false → Goes s i (.resumes i) (.woken o g) (.asleep o g)
  | late {o g} : s.ready g = true → Goes s i (.resumes i) (.expired o g) (.entering o)
  | timesOut {o g} : s.ready g = false → Goes s i (.resumes i) (.expired o g) (.outside (some (.error timedOut)))

/-- The moves by their effect. -/
inductive Step (s : ReaderState) : Move → ReaderState → Prop
  | goes {i move pc pc'} : s.threads[i]? = some pc → Goes s i move pc pc' → Step s move (s.setThread i pc')
  | locks {i o g} : s.threads[i]? = some (.locking o g) → s.inListener i = false → s.entityMutex = none → s.attached = true →
      Step s (.locks i) ({ s with entityMutex := some i }.setThread i (.taking o g))
  | misses {i o g} : s.threads[i]? = some (.taking o g) → s.mayTake i = true → s.queue = [] → o.wait = true →
      Step s (.takes i) ((s.unlock i).setThread i (.missed o g))
  | returns {i o g} : s.threads[i]? = some (.taking o g) → s.mayTake i = true → s.queue = [] → o.wait = false →
      Step s (.takes i) ((s.unlock i).setThread i (.outside (some (.error noMessage))))
  | takes {i o g sample rest} : s.threads[i]? = some (.taking o g) → s.mayTake i = true → s.queue = sample :: rest →
      sample.valid = true → Step s (.takes i) ({ s with queue := rest }.setThread i (.taken o sample))
  | skips {i o g sample rest} : s.threads[i]? = some (.taking o g) → s.mayTake i = true → s.queue = sample :: rest →
      sample.valid = false → Step s (.takes i) { s with queue := rest, skipped := s.skipped ++ [sample] }
  | numbers {i o sample} : s.threads[i]? = some (.taken o sample) →
      Step s (.numbers i) ((ReaderState.unlock { s with
        sequence := s.sequence + 1
        delivered := s.delivered ++ [{ sequence := s.sequence + 1, sample }] } i).setThread i
          (.outside (some (.ok { sequence := s.sequence + 1, sample }))))
  | setsCallback {callback} : Step s (.setsCallback callback) (if s.closed then s else { s with callback })
  | arrives {payload valid} : s.closer ≠ .finished → s.listener = .idle →
      Step s (.arrives payload valid) { s with
        queue := s.queue ++ [{ arrival := s.arrivals, payload, valid }]
        arrivals := s.arrivals + 1
        owed := true }
  | drops {sample rest} : s.queue = sample :: rest → Step s .drops { s with queue := rest, dropped := s.dropped ++ [sample] }
  | passes {i a} : s.threads[i]? = some (.outside a) → s.closed = true → Step s (.hears i) { s with owed := false }
  | hears {i a} : s.threads[i]? = some (.outside a) → s.closed = false → s.closer ≠ .finished → s.listener = .idle →
      Step s (.hears i) { s with owed := false, generation := s.generation + 1, listener := .notifying i s.callback }
  | notifies {i callback} : s.listener = .notifying i callback →
      Step s .notifies { s.notifyAll with listener := if callback then .calling i else .idle }
  | heard {i a} : s.listener = .calling i → s.threads[i]? = some (.outside a) → Step s .returns { s with listener := .idle }
  | closes : s.closer = .idle → Step s .closes { s with closed := true, callback := false, closer := .closed }
  | notifiesClosed : s.closer = .closed → Step s .notifiesClosed { s.notifyAll with closer := .notified }
  | detaches : s.closer = .notified → s.entityMutex = none → Step s .detaches { s with attached := false, closer := .detached }
  | deletes : s.closer = .detached → s.listener = .idle → Step s .deletes { s with closer := .finished }

theorem step_cases {s t : ReaderState} {move : Move} (h : step s move = some t) : Step s move t := by
  cases move with
  | reads i o =>
    simp only [step] at h
    split at h
    · next a ha =>
      split at h
      · cases h
      · next hbusy =>
        cases h
        exact .goes ha (.reads (Bool.eq_false_iff.mpr hbusy))
    · cases h
  | enters i =>
    simp only [step] at h
    split at h
    · next o ho =>
      cases h
      split
      · next hclosed => exact .goes ho (.closed hclosed)
      · next hopen => exact .goes ho (.enters (Bool.eq_false_iff.mpr hopen))
    · cases h
  | locks i =>
    simp only [step] at h
    split at h
    · next o g hg =>
      split at h
      · next hlistener =>
        cases h
        exact .goes hg (.inListener hlistener)
      · next hlistener =>
        have hlistener := Bool.eq_false_iff.mpr hlistener
        split at h
        · cases h
        · next hfree =>
          split at h
          · next hattached =>
            cases h
            exact .locks hg hlistener (not_not.mp hfree) hattached
          · next hgone =>
            cases h
            unfold ReaderState.miss
            split
            · next hwait => exact .goes hg (.gone hlistener (Bool.eq_false_iff.mpr hgone) hwait)
            · exact .goes hg (.returns hlistener)
    · cases h
  | takes i =>
    simp only [step] at h
    split at h
    · next o g hg =>
      split at h
      · next hmay =>
        split at h
        · next hqueue =>
          cases h
          unfold ReaderState.miss
          split
          · next hwait => exact .misses hg hmay hqueue hwait
          · next hwait => exact .returns hg hmay hqueue (Bool.eq_false_iff.mpr hwait)
        · next sample rest hqueue =>
          split at h
          · next hvalid =>
            cases h
            exact .takes hg hmay hqueue hvalid
          · next hvalid =>
            cases h
            exact .skips hg hmay hqueue (Bool.eq_false_iff.mpr hvalid)
      · cases h
    · cases h
  | numbers i =>
    simp only [step] at h
    split at h
    · next o sample hg =>
      cases h
      exact .numbers hg
    · cases h
  | waits i =>
    simp only [step] at h
    split at h
    · next o g hg =>
      cases h
      split
      · next hready => exact .goes hg (.retries hready)
      · next hready => exact .goes hg (.sleeps (Bool.eq_false_iff.mpr hready))
    · cases h
  | wakes i =>
    simp only [step] at h
    split at h
    · next o g hg =>
      cases h
      exact .goes hg .wakes
    · cases h
  | expires i =>
    simp only [step] at h
    split at h
    · next o g hg =>
      split at h
      · cases h
        exact .goes hg .expires
      · cases h
    · cases h
  | resumes i =>
    simp only [step] at h
    split at h
    · next o g hg =>
      cases h
      split
      · next hready => exact .goes hg (.resumes hready)
      · next hready => exact .goes hg (.sleepsOn (Bool.eq_false_iff.mpr hready))
    · next o g hg =>
      cases h
      split
      · next hready => exact .goes hg (.late hready)
      · next hready => exact .goes hg (.timesOut (Bool.eq_false_iff.mpr hready))
    · cases h
  | setsCallback callback =>
    cases h
    exact .setsCallback
  | arrives payload valid =>
    simp only [step] at h
    split at h
    · next hguard =>
      cases h
      exact .arrives hguard.1 hguard.2
    · cases h
  | drops =>
    simp only [step] at h
    split at h
    · cases h
    · next sample rest hqueue =>
      cases h
      exact .drops hqueue
  | hears i =>
    simp only [step] at h
    split at h
    · next a ha =>
      split at h
      · next hguard =>
        cases h
        split
        · next hclosed => exact .passes ha hclosed
        · next hopen => exact .hears ha (Bool.eq_false_iff.mpr hopen) hguard.1 hguard.2
      · cases h
    · cases h
  | notifies =>
    simp only [step] at h
    split at h
    · next i callback hlistener =>
      cases h
      exact .notifies hlistener
    · cases h
  | returns =>
    simp only [step] at h
    split at h
    · next i hlistener =>
      split at h
      · next a ha =>
        cases h
        exact .heard hlistener ha
      · cases h
    · cases h
  | closes =>
    simp only [step] at h
    split at h
    · next hidle =>
      cases h
      exact .closes hidle
    · cases h
  | notifiesClosed =>
    simp only [step] at h
    split at h
    · next hclosed =>
      cases h
      exact .notifiesClosed hclosed
    · cases h
  | detaches =>
    simp only [step] at h
    split at h
    · next hguard =>
      cases h
      exact .detaches hguard.1 hguard.2
    · cases h
  | deletes =>
    simp only [step] at h
    split at h
    · next hguard =>
      cases h
      exact .deletes hguard.1 hguard.2
    · cases h

/-- A reader that was just made, and the threads that are going to use it. -/
def Fresh (s : ReaderState) : Prop := ∃ n, s = { threads := List.replicate n (.outside none) }

def Reached (ok : ReaderState → Move → Prop) : ReaderState → Prop := Reach step ok Fresh

end PuppetMaster.FastDds.Reads
