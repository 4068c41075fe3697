/-
  PuppetMaster.Shm.Participants — the participant table of a segment, one atomic load,
  store or compare-exchange at a time (`Segment::ClaimParticipant`,
  `ReleaseParticipant`, `ReclaimDeadParticipants`, `IsProcessAlive`).

  A process runs any number of threads; a thread `(p, t)` belongs to process `p`. An
  entry's state word is a kind and a 30-bit generation that every claim advances. A
  claim first reclaims the entries of dead processes, then takes the first free entry by
  compare-exchange, stores its identity and activates the entry; a release loads the
  state, clears pid and start time and stores the loaded generation as free; a reclaim
  frees, by compare-exchange, an active entry whose identity is not alive.

  History: `claims i` counts the claims of entry `i`, so its generation is
  `claims i % kGenerations` (`Inv.generation`), and each claim has a ticket, the count it
  brought the entry to. `noWrap` is the assumption that fewer than `kGenerations` claims
  happen between a reclaim's load and its compare-exchange: then the generation tells
  whether the entry was claimed again.

  `ReleaseParticipant` clears the pid first, and pid 0 is not alive, so from there on the
  entry can be reclaimed and claimed by somebody else while the release is still on its
  way to its last store, which then frees an entry that is no longer its own.
  `ownRelease` is the condition that keeps this out: the last store of a release finds
  the entry not claimed again. Under it (`Inv`), the newest ticket of an entry whose
  process lives and has not cleared its pid owns the entry.
-/

import Mathlib.Algebra.Group.Nat.Defs
import Mathlib.Logic.Function.Basic
import Mathlib.Data.Prod.Basic
import PuppetMaster.Lib.Run

namespace PuppetMaster.Shm.Participants

open PuppetMaster.Lib

/-! ## The table -/

def kMaxParticipants : Nat := 64

/-- The number of generations of an entry. -/
def kGenerations : Nat := 2 ^ 30

inductive Kind where
  | free
  | claiming
  | active
  deriving DecidableEq, Repr

/-- The state word: kind and generation. -/
structure Word where
  kind : Kind
  generation : Nat
  deriving DecidableEq, Repr

def nextGeneration (w : Word) : Nat := (w.generation + 1) % kGenerations

structure Identity where
  pid : Nat
  startTime : Nat
  deriving DecidableEq, Repr

structure Entry where
  state : Word
  pid : Nat
  startTime : Nat
  deriving DecidableEq, Repr

/-- A state word a thread has loaded, with the number of claims at that time. -/
structure Loaded where
  word : Word
  claims : Nat
  deriving DecidableEq, Repr

/-- Where ReclaimDeadParticipants is with one entry; each case names its next access. -/
inductive Reclaim where
  | state
  | pid (l : Loaded)
  | startTime (l : Loaded) (pid : Nat)
  | alive (l : Loaded) (pid startTime : Nat)
  | free (l : Loaded)
  deriving DecidableEq, Repr

/-- Where a thread is; each case names its next access to entry `i`. `n` is the ticket
    of its claim. -/
inductive Pc where
  | idle
  | refused
  | reclaiming (claim : Bool) (i : Nat) (stage : Reclaim)
  | searching (i : Nat)
  | taking (i : Nat) (word : Word)
  | storingPid (i n : Nat) (claiming : Word)
  | storingStartTime (i n : Nat) (claiming : Word)
  | activating (i n : Nat) (claiming : Word)
  | holding (i n : Nat)
  | releasing (i n : Nat)
  | clearingPid (i n : Nat) (word : Word)
  | clearingStartTime (i n : Nat) (word : Word)
  | freeing (i n : Nat) (word : Word)
  deriving DecidableEq, Repr

abbrev Thread := Nat × Nat

structure St where
  entries : Nat → Entry
  /-- The identity of every process that was ever started. -/
  processes : Nat → Option Identity
  /-- The live process with a pid. -/
  os : Nat → Option Nat
  threads : Thread → Pc
  claims : Nat → Nat

inductive Act where
  | spawn (p : Nat) (identity : Identity)
  | die (p : Nat)
  | claimParticipant (a : Thread)
  | reclaimDeadParticipants (a : Thread)
  | releaseParticipant (a : Thread)
  | access (a : Thread)
  deriving DecidableEq, Repr

/-- `INT_MAX`. -/
def intMax : Nat := 2 ^ 31 - 1

/-- `kill` and `/proc` answer for the process that has the pid now. -/
def isProcessAlive (s : St) (identity : Identity) : Bool :=
  if identity.pid = 0 ∨ intMax < identity.pid then false
  else match s.os identity.pid with
    | none => false
    | some p => match s.processes p with
      | none => false
      | some stat => identity.startTime = 0 ∨ stat.startTime = identity.startTime

def currentProcess (s : St) (a : Thread) : Option Identity :=
  (s.processes a.1).bind fun identity => if s.os identity.pid = some a.1 then some identity else none

def setThread (s : St) (a : Thread) (pc : Pc) : St := { s with threads := Function.update s.threads a pc }

def setEntry (s : St) (i : Nat) (f : Entry → Entry) : St :=
  { s with entries := Function.update s.entries i (f (s.entries i)) }

/-- The next entry of ReclaimDeadParticipants; after the last one a claim starts its search. -/
def reclaimNext (claim : Bool) (i : Nat) : Pc :=
  if i + 1 < kMaxParticipants then .reclaiming claim (i + 1) .state else if claim then .searching 0 else .idle

/-- The next entry of ClaimParticipant's search; after the last one it returns
    ResourceExhausted. -/
def searchNext (i : Nat) : Pc := if i + 1 < kMaxParticipants then .searching (i + 1) else .refused

/-- The next atomic access of thread `a`, which runs in process `self`. -/
def access (s : St) (a : Thread) (self : Identity) : Option St :=
  match s.threads a with
  | .reclaiming claim i .state =>
    let word := (s.entries i).state
    some (setThread s a (if word.kind = .active then .reclaiming claim i (.pid ⟨word, s.claims i⟩) else reclaimNext claim i))
  | .reclaiming claim i (.pid l) => some (setThread s a (.reclaiming claim i (.startTime l (s.entries i).pid)))
  | .reclaiming claim i (.startTime l pid) =>
    some (setThread s a (.reclaiming claim i (.alive l pid (s.entries i).startTime)))
  | .reclaiming claim i (.alive l pid startTime) =>
    some (setThread s a
      (if isProcessAlive s ⟨pid, startTime⟩ then reclaimNext claim i else .reclaiming claim i (.free l)))
  | .reclaiming claim i (.free l) =>
    if (s.entries i).state = l.word then
      some (setThread (setEntry s i fun e => { e with state := ⟨.free, l.word.generation⟩ }) a (reclaimNext claim i))
    else some (setThread s a (reclaimNext claim i))
  | .searching i =>
    let word := (s.entries i).state
    some (setThread s a (if word.kind = .free then .taking i word else searchNext i))
  | .taking i word =>
    let claiming : Word := ⟨.claiming, nextGeneration word⟩
    if (s.entries i).state = word then
      some { setThread (setEntry s i fun e => { e with state := claiming }) a
          (.storingPid i (s.claims i + 1) claiming) with
        claims := Function.update s.claims i (s.claims i + 1) }
    else some (setThread s a (searchNext i))
  | .storingPid i n claiming =>
    some (setThread (setEntry s i fun e => { e with pid := self.pid }) a (.storingStartTime i n claiming))
  | .storingStartTime i n claiming =>
    some (setThread (setEntry s i fun e => { e with startTime := self.startTime }) a (.activating i n claiming))
  | .activating i n claiming =>
    some (setThread (setEntry s i fun e => { e with state := ⟨.active, claiming.generation⟩ }) a (.holding i n))
  | .releasing i n => some (setThread s a (.clearingPid i n (s.entries i).state))
  | .clearingPid i n word =>
    some (setThread (setEntry s i fun e => { e with pid := 0 }) a (.clearingStartTime i n word))
  | .clearingStartTime i n word =>
    some (setThread (setEntry s i fun e => { e with startTime := 0 }) a (.freeing i n word))
  | .freeing i _ word =>
    some (setThread (setEntry s i fun e => { e with state := ⟨.free, word.generation⟩ }) a .idle)
  | .idle | .refused | .holding _ _ => none

def step (s : St) : Act → Option St
  | .spawn p identity =>
    if s.processes p = none ∧ s.os identity.pid = none ∧ identity.pid ≠ 0 ∧ identity.pid ≤ intMax then
      some { s with
        processes := Function.update s.processes p (some identity)
        os := Function.update s.os identity.pid (some p) }
    else none
  | .die p =>
    (currentProcess s (p, 0)).map fun identity => { s with os := Function.update s.os identity.pid none }
  | .claimParticipant a =>
    (currentProcess s a).bind fun _ => match s.threads a with
      | .idle | .refused => some (setThread s a (.reclaiming true 0 .state))
      | _ => none
  | .reclaimDeadParticipants a =>
    (currentProcess s a).bind fun _ => match s.threads a with
      | .idle | .refused => some (setThread s a (.reclaiming false 0 .state))
      | _ => none
  | .releaseParticipant a =>
    (currentProcess s a).bind fun _ => match s.threads a with
      | .holding i n => some (setThread s a (if kMaxParticipants ≤ i then .idle else .releasing i n))
      | _ => none
  | .access a => (currentProcess s a).bind (access s a)

/-- A zero-filled table and no process. -/
def init : St := ⟨fun _ => ⟨⟨.free, 0⟩, 0, 0⟩, fun _ => none, fun _ => none, fun _ => .idle, fun _ => 0⟩

/-- Fewer than `kGenerations` claims happen between a reclaim's load of the state and its
    compare-exchange. -/
def noWrap (s : St) : Act → Prop
  | .access a => match s.threads a with
    | .reclaiming _ i (.free l) => s.claims i < l.claims + kGenerations
    | _ => True
  | _ => True

/-- The last store of a release finds the entry not claimed again since. -/
def ownRelease (s : St) : Act → Prop
  | .access a => match s.threads a with
    | .freeing i n _ => s.claims i = n
    | _ => True
  | _ => True

end PuppetMaster.Shm.Participants
