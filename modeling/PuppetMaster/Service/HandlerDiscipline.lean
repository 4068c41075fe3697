/-
  PuppetMaster.Service.HandlerDiscipline — the handler of a server runs on one thread at a
  time, and not after `Close`.

  Three invariants carry it. `Locks`: `serve_mutex` and `serving_thread` name the thread that
  is inside, and one mode's runners keep out of the other's. `Closing`: once `Close` has had
  `serve_mutex`, no pass that found the server open is left, and there will be no other.
  `Ledger`: the requests are counted in the order they were taken, all but the one that the
  current runner (`current`) has in hand.

  `handler_discipline` puts them together, for every run of a server.
-/

import Mathlib.Data.List.Nodup
import PuppetMaster.Lib.Run
import PuppetMaster.Service.Serving

namespace PuppetMaster.Service.Serving

open PuppetMaster.Core PuppetMaster.Lib PuppetMaster.Service

/-! ## Where a thread is -/

namespace ThreadPc

def serveOf : ThreadPc → Option ServePc
  | .serving _ pc | .relocking _ pc => some pc
  | _ => none

/-- `serving_thread` is this thread. -/
def marked : ThreadPc → Bool
  | .counting _ | .looping _ | .reading _ | .serving _ _ | .relocking _ _ | .leaving _ => true
  | _ => false

/-- The pass has found the server open. -/
def admitted : ThreadPc → Bool
  | .entering _ => true
  | pc => pc.marked

def holds : ThreadPc → Bool
  | .checking _ | .unlocking _ | .closing .unlocking => true
  | pc => pc.admitted

/-- In `ServePending`. -/
def calls : ThreadPc → Bool
  | .locking _ | .checking _ | .unlocking _ => true
  | pc => pc.admitted

def isClosing : ThreadPc → Bool
  | .closing _ => true
  | _ => false

/-- `Close` has joined the worker. -/
def joined : ThreadPc → Bool
  | .closing .asking | .closing .locking | .closing .unlocking | .closing .clearing => true
  | _ => false

/-- `Close` has had `serve_mutex`. -/
def waited : ThreadPc → Bool
  | .closing .unlocking | .closing .clearing => true
  | _ => false

variable {pc : ThreadPc}

theorem marked_of_serving {serve : ServePc} (h : pc.serveOf = some serve) : pc.marked = true := by
  cases pc <;> first | rfl | cases h

theorem admitted_of_marked (h : pc.marked = true) : pc.admitted = true := by
  cases pc <;> first | exact h | cases h

theorem holds_of_admitted (h : pc.admitted = true) : pc.holds = true := by
  cases pc <;> first | exact h | cases h

theorem calls_of_admitted (h : pc.admitted = true) : pc.calls = true := by
  cases pc <;> first | exact h | cases h

theorem not_closing_of_marked (h : pc.marked = true) : pc.isClosing = false := by
  cases pc <;> first | rfl | cases h

theorem closing_of_waited (h : pc.waited = true) : pc.isClosing = true ∧ pc.joined = true ∧ pc.admitted = false := by
  cases pc with
  | closing close => cases close <;> first | exact ⟨rfl, rfl, rfl⟩ | cases h
  | _ => cases h

end ThreadPc

def WorkerPc.serveOf : WorkerPc → Option ServePc
  | .serving pc => some pc
  | _ => none

def WorkerPc.stopped (pc : WorkerPc) : Bool := pc = .absent || pc = .finished

/-! ## The locks -/

/-- A thread's step takes the lock, gives it back or leaves it alone. -/
def Passes (owner owner' : Option Nat) (t : Nat) (held held' : Bool) : Prop :=
  (owner' = owner ∧ held' = held) ∨ (owner = none ∧ owner' = some t ∧ held' = true) ∨
    (owner = some t ∧ owner' = none ∧ held' = false)

theorem Passes.update {owner owner' : Option Nat} {t : Nat} {flag : ThreadPc → Bool} {threads : Nat → ThreadPc}
    {pc : ThreadPc} (h : Passes owner owner' t (flag (threads t)) (flag pc))
    (howner : ∀ u, owner = some u ↔ flag (threads u) = true) (u : Nat) :
    owner' = some u ↔ flag (Function.update threads t pc u) = true := by
  by_cases hu : u = t
  · subst hu
    rw [Function.update_self]
    rcases h with ⟨rfl, hsame⟩ | ⟨-, rfl, htakes⟩ | ⟨-, rfl, hgives⟩
    · rw [hsame]
      exact howner u
    · simp [htakes]
    · simp [hgives]
  · rw [Function.update_of_ne hu]
    rcases h with ⟨rfl, -⟩ | ⟨rfl, rfl, -⟩ | ⟨rfl, rfl, -⟩
    · exact howner u
    · rw [← howner u]
      simp [Ne.symm hu]
    · rw [← howner u]
      simp [Ne.symm hu]

structure Locks (s : State) : Prop where
  mutex : ∀ t, s.serveMutex = some t ↔ (s.threads t).holds = true
  serving : ∀ t, s.servingThread = some t ↔ (s.threads t).marked = true
  modes : (s.mode = .caller ∧ s.worker = .absent) ∨ (s.mode = .ownThread ∧ ∀ t, (s.threads t).calls = false)

variable {s s' : State} {t : Nat} {pc : ThreadPc}

theorem Locks.caller (h : Locks s) (hcalls : (s.threads t).calls = true) : s.mode = .caller := by
  rcases h.modes with ⟨hmode, -⟩ | ⟨-, hnone⟩
  · exact hmode
  · rw [hnone t] at hcalls
    cases hcalls

/-- Nobody is marked while a thread that is not holds the mutex. -/
theorem Locks.unmarked (h : Locks s) (hholds : (s.threads t).holds = true) (hmarked : (s.threads t).marked = false) :
    s.servingThread = none := by
  cases hserving : s.servingThread with
  | none => rfl
  | some u =>
    have hu := (h.serving u).mp hserving
    have howner := (h.mutex u).mpr (ThreadPc.holds_of_admitted (ThreadPc.admitted_of_marked hu))
    rw [(h.mutex t).mpr hholds] at howner
    cases howner
    rw [hmarked] at hu
    cases hu

/-- A step of thread `t` to `pc`. -/
structure ThreadMoves (s : State) (t : Nat) (pc : ThreadPc) (s' : State) : Prop where
  threads : s'.threads = Function.update s.threads t pc
  mode : s'.mode = s.mode
  worker : s'.worker = s.worker
  mutex : Passes s.serveMutex s'.serveMutex t (s.threads t).holds pc.holds
  serving : Passes s.servingThread s'.servingThread t (s.threads t).marked pc.marked
  calls : pc.calls = true → s.mode = .caller

theorem Locks.move (h : Locks s) (hmoves : ThreadMoves s t pc s') : Locks s' := by
  refine ⟨fun u => ?_, fun u => ?_, ?_⟩
  · rw [hmoves.threads]
    exact hmoves.mutex.update h.mutex u
  · rw [hmoves.threads]
    exact hmoves.serving.update h.serving u
  · rw [hmoves.mode, hmoves.worker]
    rcases h.modes with hcaller | ⟨hmode, hnone⟩
    · exact .inl hcaller
    · refine .inr ⟨hmode, fun u => ?_⟩
      rw [hmoves.threads]
      by_cases hu : u = t
      · subst hu
        rw [Function.update_self]
        cases hcalls : pc.calls with
        | false => rfl
        | true =>
          have := hmoves.calls hcalls
          rw [hmode] at this
          cases this
      · rw [Function.update_of_ne hu]
        exact hnone u

/-! ## Closing -/

structure Closing (s : State) : Prop where
  closed : ∀ t, (s.threads t).isClosing = true → s.closed = true
  joined : ∀ t, (s.threads t).joined = true → s.worker.stopped = true
  waited : ∀ t u, (s.threads t).waited = true → (s.threads u).admitted = false
  returned : s.closeReturned = true → s.closed = true ∧ s.worker.stopped = true ∧ ∀ u, (s.threads u).admitted = false

theorem Closing.move (h : Closing s) (hthreads : s'.threads = Function.update s.threads t pc)
    (hworker : s'.worker = s.worker) (hclosed : s.closed = true → s'.closed = true)
    (hclosing : pc.isClosing = true → s'.closed = true) (hjoined : pc.joined = true → s'.worker.stopped = true)
    (hwaited : pc.waited = true → (s.threads t).waited = true ∨ ∀ u, (s.threads u).admitted = false)
    (hadmitted : pc.admitted = true → (s.threads t).admitted = true ∨ s.closed = false)
    (hreturned : s'.closeReturned = true → s.closeReturned = true ∨ ((s.threads t).waited = true ∧ pc = .outside)) :
    Closing s' := by
  -- nobody is admitted any more once `Close` has waited, or has returned
  have hnone : (s.closed = true ∧ ∀ u, (s.threads u).admitted = false) → ∀ u, (s'.threads u).admitted = false := by
    rintro ⟨hclosed, hnone⟩ u
    rw [hthreads]
    by_cases hu : u = t
    · subst hu
      rw [Function.update_self]
      cases hpc : pc.admitted with
      | false => rfl
      | true =>
        rcases hadmitted hpc with hold | hopen
        · rw [hnone u] at hold
          cases hold
        · rw [hclosed] at hopen
          cases hopen
    · rw [Function.update_of_ne hu]
      exact hnone u
  refine ⟨fun u hu => ?_, fun u hu => ?_, fun u v hu => ?_, fun hret => ?_⟩
  · rw [hthreads] at hu
    by_cases hut : u = t
    · subst hut
      rw [Function.update_self] at hu
      exact hclosing hu
    · rw [Function.update_of_ne hut] at hu
      exact hclosed (h.closed u hu)
  · rw [hthreads] at hu
    by_cases hut : u = t
    · subst hut
      rw [Function.update_self] at hu
      exact hjoined hu
    · rw [Function.update_of_ne hut] at hu
      rw [hworker]
      exact h.joined u hu
  · have hold : ∀ w, (s.threads w).waited = true → (s'.threads v).admitted = false := fun w hw =>
      hnone ⟨h.closed w (ThreadPc.closing_of_waited hw).1, fun x => h.waited w x hw⟩ v
    rw [hthreads] at hu
    by_cases hut : u = t
    · subst hut
      rw [Function.update_self] at hu
      rcases hwaited hu with hwas | hall
      · exact hold u hwas
      · rw [hthreads]
        by_cases hv : v = u
        · subst hv
          rw [Function.update_self]
          exact (ThreadPc.closing_of_waited hu).2.2
        · rw [Function.update_of_ne hv]
          exact hall v
    · rw [Function.update_of_ne hut] at hu
      exact hold u hu
  · rcases hreturned hret with hold | ⟨hwas, rfl⟩
    · obtain ⟨hc, hw, hall⟩ := h.returned hold
      exact ⟨hclosed hc, hworker ▸ hw, hnone ⟨hc, hall⟩⟩
    · obtain ⟨hclosing, hjoined, -⟩ := ThreadPc.closing_of_waited hwas
      have hc := h.closed t hclosing
      exact ⟨hclosed hc, hworker ▸ h.joined t hjoined, hnone ⟨hc, fun u => h.waited t u hwas⟩⟩

/-! ## The ledger -/

/-- What the server has taken, called its handler for, and counted. -/
structure Books where
  taken : List Message
  invoked : List (Nat × Invocation)
  fates : List (Nat × Fate)
  handled : Nat
  expired : Nat

def State.books (s : State) : Books := ⟨s.taken, s.invoked, s.fates, s.handled, s.expired⟩

/-- The request at place `k`, as `Serve` decodes it. -/
def Decodes (taken : List Message) (k : Nat) (request : Invocation) : Prop :=
  ∃ message header, taken[k]? = some message ∧
    decode message.payload requestMagic = some (header, request.payload) ∧
    header.clientId = request.clientId ∧ header.requestId = request.requestId

/-- The request that is in hand is the one after those with a fate; the handler may have been called for it. -/
def InHand (b : Books) : Option ServePc → Prop
  | some (.decoding index message) =>
    index = b.fates.length ∧ b.taken.length = index + 1 ∧ b.taken[index]? = some message ∧
      ∀ entry ∈ b.invoked, entry.1 < index
  | some (.handling index request) =>
    index = b.fates.length ∧ b.taken.length = index + 1 ∧
      ∃ before, b.invoked = before ++ [(index, request)] ∧ ∀ entry ∈ before, entry.1 < index
  | some (.replying _) | none => b.taken.length = b.fates.length ∧ ∀ entry ∈ b.invoked, entry.1 < b.fates.length

structure Ledger (b : Books) (hand : Option ServePc) : Prop where
  places : b.fates.map Prod.fst = List.range b.fates.length
  handled : b.handled = b.fates.countP fun entry => entry.2 = .handled
  expired : b.expired = b.fates.countP fun entry => entry.2 = .expired
  order : (b.invoked.map Prod.fst).Pairwise (· < ·)
  decoded : ∀ entry ∈ b.invoked, Decodes b.taken entry.1 entry.2
  ran : ∀ entry ∈ b.fates, entry.2 = .handled ↔ entry.1 ∈ b.invoked.map Prod.fst
  malformed : ∀ entry ∈ b.fates, entry.2 = .malformed →
    ∃ message, b.taken[entry.1]? = some message ∧ decode message.payload requestMagic = none
  inHand : InHand b hand

theorem Decodes.append {taken : List Message} {k : Nat} {request : Invocation} (h : Decodes taken k request)
    (message : Message) : Decodes (taken ++ [message]) k request := by
  obtain ⟨m, header, hm, hdecode⟩ := h
  obtain ⟨hlt, -⟩ := List.getElem?_eq_some_iff.mp hm
  exact ⟨m, header, by rw [List.getElem?_append_left hlt, hm], hdecode⟩

theorem Ledger.place_lt {b : Books} {hand : Option ServePc} (h : Ledger b hand) {entry : Nat × Fate}
    (hentry : entry ∈ b.fates) : entry.1 < b.fates.length := by
  have hmem := List.mem_map_of_mem (f := Prod.fst) hentry
  rw [h.places] at hmem
  exact List.mem_range.mp hmem

/-- `Read` returns a message, with nothing in hand. -/
theorem Ledger.take {b : Books} (h : Ledger b none) (message : Message) :
    Ledger { b with taken := b.taken ++ [message] } (some (.decoding b.taken.length message)) := by
  obtain ⟨hlength, hbelow⟩ := h.inHand
  refine ⟨h.places, h.handled, h.expired, h.order, fun entry hentry => (h.decoded entry hentry).append message, h.ran,
    fun entry hentry hmalformed => ?_, hlength, by simp, by simp, fun entry hentry => ?_⟩
  · obtain ⟨m, hm, hdecode⟩ := h.malformed entry hentry hmalformed
    obtain ⟨hlt, -⟩ := List.getElem?_eq_some_iff.mp hm
    exact ⟨m, by rw [List.getElem?_append_left hlt, hm], hdecode⟩
  · rw [hlength]
    exact hbelow entry hentry

/-- A request gets its fate: the handler was called for it, or was not. -/
theorem Ledger.settle {b : Books} {hand : Option ServePc} (h : Ledger b hand) (fate : Fate) {handled expired : Nat}
    {hand' : Option ServePc} (hlength : b.taken.length = b.fates.length + 1)
    (hran : fate = .handled ↔ b.fates.length ∈ b.invoked.map Prod.fst)
    (hhandled : handled = b.handled + if fate = .handled then 1 else 0)
    (hexpired : expired = b.expired + if fate = .expired then 1 else 0)
    (hmalformed : fate = .malformed → ∃ message, b.taken[b.fates.length]? = some message ∧
      decode message.payload requestMagic = none)
    (hbelow : ∀ entry ∈ b.invoked, entry.1 < b.fates.length + 1) (hdone : hand' = none ∨ ∃ i, hand' = some (.replying i)) :
    Ledger { b with fates := b.fates ++ [(b.fates.length, fate)], handled, expired } hand' := by
  refine ⟨?_, ?_, ?_, h.order, h.decoded, ?_, ?_, ?_⟩
  · simp [h.places, List.range_succ]
  · cases fate <;> simp [hhandled, h.handled]
  · cases fate <;> simp [hexpired, h.expired]
  · intro entry hentry
    rcases List.mem_append.mp hentry with hentry | hentry
    · exact h.ran entry hentry
    · cases List.mem_singleton.mp hentry
      exact hran
  · intro entry hentry hfate
    rcases List.mem_append.mp hentry with hentry | hentry
    · exact h.malformed entry hentry hfate
    · cases List.mem_singleton.mp hentry
      exact hmalformed hfate
  · have hboth : b.taken.length = (b.fates ++ [(b.fates.length, fate)]).length ∧
        ∀ entry ∈ b.invoked, entry.1 < (b.fates ++ [(b.fates.length, fate)]).length := by
      rw [List.length_append, List.length_singleton]
      exact ⟨hlength, hbelow⟩
    rcases hdone with rfl | ⟨i, rfl⟩
    · exact hboth
    · exact hboth

/-- What is in hand after a step of `Serve`. -/
def Served.hand : Served → Option ServePc
  | .on pc => some pc
  | .returned _ => none

theorem serve_eq (s : State) (answer : Answer) (pc : ServePc) :
    ∃ handled expired invoked fates, (serve s answer pc).1 = { s with handled, expired, invoked, fates } := by
  cases pc with
  | decoding index message =>
    simp only [serve]
    split
    · exact ⟨_, _, _, _, rfl⟩
    · split
      · exact ⟨_, _, _, _, rfl⟩
      · exact ⟨_, _, _, _, rfl⟩
  | handling index request => exact ⟨_, _, _, _, rfl⟩
  | replying index => exact ⟨_, _, _, _, rfl⟩

theorem Ledger.serve {pc : ServePc} (h : Ledger s.books (some pc)) (answer : Answer) :
    Ledger (Serving.serve s answer pc).1.books (Serving.serve s answer pc).2.hand := by
  cases pc with
  | decoding index message =>
    obtain ⟨hindex, hlength, htaken, hbelow⟩ := h.inHand
    subst hindex
    have hnew : s.fates.length ∉ s.invoked.map Prod.fst := by
      intro hin
      obtain ⟨entry, hentry, heq⟩ := List.mem_map.mp hin
      exact Nat.lt_irrefl _ (heq ▸ hbelow entry hentry)
    have hbelow' : ∀ entry ∈ s.invoked, entry.1 < s.fates.length + 1 := fun entry hentry =>
      Nat.lt_succ_of_lt (hbelow entry hentry)
    simp only [Serving.serve]
    split
    · next hdecode =>
      exact h.settle .malformed hlength ⟨fun hf => (by cases hf), fun hin => absurd hin hnew⟩ rfl rfl
        (fun _ => ⟨message, htaken, hdecode⟩) hbelow' (.inl rfl)
    · next header payload hdecode =>
      split
      · exact h.settle .expired hlength ⟨fun hf => (by cases hf), fun hin => absurd hin hnew⟩ rfl rfl
          (fun hf => (by cases hf)) hbelow' (.inl rfl)
      · refine ⟨h.places, h.handled, h.expired, ?_, fun entry hentry => ?_, fun entry hentry => ?_, h.malformed, rfl,
          hlength, s.invoked, rfl, hbelow⟩
        · show ((s.invoked ++ [(s.fates.length, _)]).map Prod.fst).Pairwise (· < ·)
          rw [List.map_append, List.pairwise_append]
          refine ⟨h.order, List.pairwise_singleton _ _, fun k hk k' hk' => ?_⟩
          obtain ⟨entry, hentry, rfl⟩ := List.mem_map.mp hk
          cases List.mem_singleton.mp hk'
          exact hbelow entry hentry
        · rcases List.mem_append.mp hentry with hentry | hentry
          · exact h.decoded entry hentry
          · cases List.mem_singleton.mp hentry
            exact ⟨message, header, htaken, hdecode, rfl, rfl⟩
        · have hlt := h.place_lt hentry
          rw [h.ran entry hentry]
          show entry.1 ∈ s.invoked.map Prod.fst ↔ entry.1 ∈ (s.invoked ++ [(s.fates.length, _)]).map Prod.fst
          have hne : entry.1 ≠ s.fates.length := Nat.ne_of_lt hlt
          simp [hne]
  | handling index request =>
    obtain ⟨hindex, hlength, before, hinvoked, hbelow⟩ := h.inHand
    subst hindex
    have hmem : (s.fates.length, request) ∈ s.books.invoked := by
      rw [hinvoked]
      exact List.mem_append_right _ List.mem_cons_self
    refine h.settle .handled hlength ⟨fun _ => List.mem_map_of_mem hmem, fun _ => rfl⟩ rfl rfl (fun hf => (by cases hf))
      (fun entry hentry => ?_) (.inr ⟨_, rfl⟩)
    rw [hinvoked] at hentry
    rcases List.mem_append.mp hentry with hentry | hentry
    · exact Nat.lt_succ_of_lt (hbelow entry hentry)
    · cases List.mem_singleton.mp hentry
      exact Nat.lt_succ_self _
  | replying index =>
    exact ⟨h.places, h.handled, h.expired, h.order, h.decoded, h.ran, h.malformed, h.inHand⟩

/-! ## The current runner -/

/-- Where the one that may serve is in `Serve`. -/
def State.current (s : State) : Option ServePc :=
  match s.mode with
  | .ownThread => s.worker.serveOf
  | .caller => s.serveMutex.bind fun t => (s.threads t).serveOf

structure Good (s : State) : Prop where
  locks : Locks s
  closing : Closing s
  ledger : Ledger s.books s.current

theorem Locks.current_thread (h : Locks s) (hcalls : (s.threads t).calls = true) (hholds : (s.threads t).holds = true) :
    s.current = (s.threads t).serveOf := by
  rw [State.current, h.caller hcalls, (h.mutex t).mpr hholds]
  rfl

/-- A thread that is not in `Serve`, before and after its step, leaves the current runner as it is. -/
theorem Locks.current_quiet (hmoves : ThreadMoves s t pc s') (hold : (s.threads t).serveOf = none)
    (hnew : pc.serveOf = none) : s'.current = s.current := by
  unfold State.current
  rw [hmoves.mode, hmoves.worker]
  cases s.mode with
  | ownThread => rfl
  | caller =>
    have hsame : ∀ u, (s'.threads u).serveOf = (s.threads u).serveOf := by
      intro u
      rw [hmoves.threads]
      by_cases hu : u = t
      · subst hu
        rw [Function.update_self, hnew, hold]
      · rw [Function.update_of_ne hu]
    simp only [hsame]
    rcases hmoves.mutex with ⟨hmutex, -⟩ | ⟨hmutex, hmutex', -⟩ | ⟨hmutex, hmutex', -⟩
    · rw [hmutex]
    · rw [hmutex, hmutex']
      exact hold
    · rw [hmutex, hmutex']
      exact hold.symm

theorem Good.quiet (h : Good s) (hmoves : ThreadMoves s t pc s') (hclosing : Closing s') (hbooks : s'.books = s.books)
    (hold : (s.threads t).serveOf = none) (hnew : pc.serveOf = none) : Good s' := by
  refine ⟨h.locks.move hmoves, hclosing, ?_⟩
  rw [hbooks, Locks.current_quiet hmoves hold hnew]
  exact h.ledger

/-- A step in `ServePending` that leaves the locks alone. -/
theorem ThreadMoves.goto (hholds : pc.holds = (s.threads t).holds) (hmarked : pc.marked = (s.threads t).marked)
    (hcalls : pc.calls = true → s.mode = .caller) : ThreadMoves s t pc (Serving.goto s t pc) :=
  ⟨rfl, rfl, rfl, .inl ⟨rfl, hholds⟩, .inl ⟨rfl, hmarked⟩, hcalls⟩

/-- A step of a thread that is not closing: a pass goes on, ends, or finds the server open. -/
theorem Closing.serving (h : Closing s) (hthreads : s'.threads = Function.update s.threads t pc)
    (hworker : s'.worker = s.worker) (hclosed : s'.closed = s.closed) (hreturned : s'.closeReturned = s.closeReturned)
    (hpc : pc.isClosing = false) (hadmitted : pc.admitted = true → (s.threads t).admitted = true ∨ s.closed = false) :
    Closing s' := by
  have hjoined : pc.joined = true → pc.isClosing = true := by
    intro hj
    cases pc <;> first | rfl | cases hj
  refine h.move hthreads hworker (fun hc => hclosed.trans hc) (fun hc => ?_) (fun hj => ?_) (fun hw => ?_) hadmitted
    fun hret => .inl (hreturned ▸ hret)
  · rw [hpc] at hc
    cases hc
  · rw [hpc] at hjoined
    cases hjoined hj
  · rw [hpc] at hjoined
    cases hjoined (ThreadPc.closing_of_waited hw).2.1

/-! ## Steps of the threads -/

variable {spec : ServiceDeclaration}

/-- A step inside a pass that leaves the locks, the books and `Serve` alone. -/
theorem Good.goes (h : Good s) (hcalls : (s.threads t).calls = true) (hholds : pc.holds = (s.threads t).holds)
    (hmarked : pc.marked = (s.threads t).marked) (hpc : pc.isClosing = false)
    (hadmitted : pc.admitted = true → (s.threads t).admitted = true ∨ s.closed = false)
    (hold : (s.threads t).serveOf = none) (hnew : pc.serveOf = none) : Good (goto s t pc) :=
  h.quiet (.goto hholds hmarked fun _ => h.locks.caller hcalls)
    (h.closing.serving rfl rfl rfl rfl hpc hadmitted) rfl hold hnew

/-- The same from one turn of a pass to another. -/
theorem Good.passes {old : ThreadPc} (h : Good s) (hpc : s.threads t = old) (hmarked : old.marked = true)
    (hmarked' : pc.marked = true) (hold : old.serveOf = none) (hnew : pc.serveOf = none) : Good (goto s t pc) := by
  subst hpc
  have hadmitted := ThreadPc.admitted_of_marked hmarked
  have hadmitted' := ThreadPc.admitted_of_marked hmarked'
  have hholds : pc.holds = (s.threads t).holds := by
    rw [ThreadPc.holds_of_admitted hadmitted, ThreadPc.holds_of_admitted hadmitted']
  exact h.goes (ThreadPc.calls_of_admitted hadmitted) hholds (hmarked'.trans hmarked.symm)
    (ThreadPc.not_closing_of_marked hmarked') (fun _ => .inl hadmitted) hold hnew

theorem Good.serves (h : Good s) {pass : Pass} {pc : ServePc} (hpc : s.threads t = .serving pass pc) (answer : Answer)
    {pc' : ThreadPc} (hmarked : pc'.marked = true) (hhand : pc'.serveOf = (serve s answer pc).2.hand) :
    Good (goto (serve s answer pc).1 t pc') := by
  have hcaller := h.locks.caller (t := t) (by rw [hpc]; rfl)
  have hadmitted : (s.threads t).admitted = true := by rw [hpc]; rfl
  have hadmitted' := ThreadPc.admitted_of_marked hmarked
  have hclosing := ThreadPc.not_closing_of_marked hmarked
  have hledger : Ledger (serve s answer pc).1.books (serve s answer pc).2.hand := by
    refine Ledger.serve ?_ answer
    have := h.ledger
    rwa [h.locks.current_thread (ThreadPc.calls_of_admitted hadmitted) (ThreadPc.holds_of_admitted hadmitted), hpc] at this
  obtain ⟨handled, expired, invoked, fates, heq⟩ := serve_eq s answer pc
  rw [heq] at hledger ⊢
  have hmoves : ThreadMoves s t pc' (goto { s with handled, expired, invoked, fates } t pc') :=
    ⟨rfl, rfl, rfl, .inl ⟨rfl, by rw [ThreadPc.holds_of_admitted hadmitted, ThreadPc.holds_of_admitted hadmitted']⟩,
      .inl ⟨rfl, by rw [hmarked, hpc]; rfl⟩, fun _ => hcaller⟩
  have hlocks := h.locks.move hmoves
  refine ⟨hlocks, h.closing.serving rfl rfl rfl rfl hclosing fun _ => .inl hadmitted, ?_⟩
  have hself : (goto { s with handled, expired, invoked, fates } t pc').threads t = pc' := Function.update_self ..
  rw [hlocks.current_thread (t := t) (by rw [hself]; exact ThreadPc.calls_of_admitted hadmitted')
    (by rw [hself]; exact ThreadPc.holds_of_admitted hadmitted'), hself, hhand]
  exact hledger

theorem Good.closeStep (h : Good s) {close : ClosePc} (hpc : s.threads t = .closing close)
    (hs : Serving.closeStep s t close = some s') : Good s' := by
  have hclosed : s.closed = true := h.closing.closed t (by rw [hpc]; rfl)
  have hold : (s.threads t).serveOf = none := by rw [hpc]; rfl
  have hmarked : ∀ {pc' : ClosePc}, (ThreadPc.closing pc').marked = (s.threads t).marked := fun {_} => by rw [hpc]; rfl
  have hjoins : ∀ {pc' : ThreadPc}, (s.threads t).joined = true → pc'.joined = true → s.worker.stopped = true :=
    fun hjoined _ => h.closing.joined t hjoined
  cases close with
  | joiningHeartbeat =>
    cases hs
    refine h.quiet (.goto (by rw [hpc]; rfl) hmarked fun hc => (by cases hc)) ?_ rfl hold rfl
    exact h.closing.move rfl rfl id (fun _ => hclosed) (fun hj => (by cases hj)) (fun hw => (by cases hw))
      (fun ha => (by cases ha)) .inl
  | announcing =>
    cases hs
    refine h.quiet (.goto (by rw [hpc]; rfl) hmarked fun hc => (by cases hc)) ?_ rfl hold rfl
    exact h.closing.move rfl rfl id (fun _ => hclosed) (fun hj => (by cases hj)) (fun hw => (by cases hw))
      (fun ha => (by cases ha)) .inl
  | joiningWorker =>
    simp only [Serving.closeStep] at hs
    split at hs
    · next hstopped =>
      cases hs
      refine h.quiet (.goto (by rw [hpc]; rfl) hmarked fun hc => (by cases hc)) ?_ rfl hold rfl
      have hworker : s.worker.stopped = true := by
        rcases hstopped with hstopped | hstopped
        · rw [hstopped]
          rfl
        · rw [hstopped]
          rfl
      exact h.closing.move rfl rfl id (fun _ => hclosed) (fun _ => hworker) (fun hw => (by cases hw))
        (fun ha => (by cases ha)) .inl
    · cases hs
  | asking =>
    simp only [Serving.closeStep] at hs
    -- a thread in `Close` is not the one inside `ServePending`
    have hother : s.servingThread ≠ some t := by
      intro hserving
      have := (h.locks.serving t).mp hserving
      rw [hpc] at this
      cases this
    rw [if_pos hother] at hs
    cases hs
    refine h.quiet (.goto (by rw [hpc]; rfl) hmarked fun hc => (by cases hc)) ?_ rfl hold rfl
    exact h.closing.move rfl rfl id (fun _ => hclosed) (hjoins (by rw [hpc]; rfl)) (fun hw => (by cases hw))
      (fun ha => (by cases ha)) .inl
  | locking =>
    simp only [Serving.closeStep] at hs
    split at hs
    · next hfree =>
      cases hs
      have hmoves : ThreadMoves s t (.closing .unlocking) { goto s t (.closing .unlocking) with serveMutex := some t } :=
        ⟨rfl, rfl, rfl, .inr (.inl ⟨hfree, rfl, rfl⟩), .inl ⟨rfl, hmarked⟩, fun hc => (by cases hc)⟩
      refine h.quiet hmoves ?_ rfl hold rfl
      refine h.closing.move rfl rfl id (fun _ => hclosed) (hjoins (by rw [hpc]; rfl)) (fun _ => .inr fun u => ?_)
        (fun ha => (by cases ha)) .inl
      cases hadmitted : (s.threads u).admitted with
      | false => rfl
      | true =>
        have := (h.locks.mutex u).mpr (ThreadPc.holds_of_admitted hadmitted)
        rw [hfree] at this
        cases this
    · cases hs
  | unlocking =>
    cases hs
    have howner : s.serveMutex = some t := (h.locks.mutex t).mpr (by rw [hpc]; rfl)
    have hmoves : ThreadMoves s t (.closing .clearing) { goto s t (.closing .clearing) with serveMutex := none } :=
      ⟨rfl, rfl, rfl, .inr (.inr ⟨howner, rfl, rfl⟩), .inl ⟨rfl, hmarked⟩, fun hc => (by cases hc)⟩
    refine h.quiet hmoves ?_ rfl hold rfl
    exact h.closing.move rfl rfl id (fun _ => hclosed) (hjoins (by rw [hpc]; rfl)) (fun _ => .inl (by rw [hpc]; rfl))
      (fun ha => (by cases ha)) .inl
  | clearing =>
    cases hs
    have hmoves : ThreadMoves s t .outside { goto s t .outside with closeReturned := true } :=
      ⟨rfl, rfl, rfl, .inl ⟨rfl, by rw [hpc]; rfl⟩, .inl ⟨rfl, by rw [hpc]; rfl⟩, fun hc => (by cases hc)⟩
    refine h.quiet hmoves ?_ rfl hold rfl
    exact h.closing.move rfl rfl id (fun hc => (by cases hc)) (fun hj => (by cases hj)) (fun hw => (by cases hw))
      (fun ha => (by cases ha)) fun _ => .inr ⟨by rw [hpc]; rfl, rfl⟩

theorem Good.threadStep {answer : Answer} (h : Good s) (hs : Serving.threadStep spec s t answer = some s') : Good s' := by
  cases hpc : s.threads t with
  | outside =>
    simp only [Serving.threadStep, hpc] at hs
    cases hs
  | relocking pass pc =>
    simp only [Serving.threadStep, hpc] at hs
    cases hs
  | locking limit =>
    have hcaller := h.locks.caller (t := t) (by rw [hpc]; rfl)
    simp only [Serving.threadStep, hpc] at hs
    split at hs
    · next hfree =>
      cases hs
      have hmoves : ThreadMoves s t (.checking limit) { goto s t (.checking limit) with serveMutex := some t } :=
        ⟨rfl, rfl, rfl, .inr (.inl ⟨hfree, rfl, rfl⟩), .inl ⟨rfl, by rw [hpc]; rfl⟩, fun _ => hcaller⟩
      exact h.quiet hmoves (h.closing.serving rfl rfl rfl rfl rfl fun ha => (by cases ha)) rfl (by rw [hpc]; rfl) rfl
    · cases hs
  | checking limit =>
    simp only [Serving.threadStep, hpc] at hs
    cases hs
    split
    · exact h.goes (by rw [hpc]; rfl) (by rw [hpc]; rfl) (by rw [hpc]; rfl) rfl (fun ha => (by cases ha))
        (by rw [hpc]; rfl) rfl
    · next hopen =>
      exact h.goes (by rw [hpc]; rfl) (by rw [hpc]; rfl) (by rw [hpc]; rfl) rfl
        (fun _ => .inr (Bool.eq_false_of_not_eq_true hopen)) (by rw [hpc]; rfl) rfl
  | entering limit =>
    have hcaller := h.locks.caller (t := t) (by rw [hpc]; rfl)
    simp only [Serving.threadStep, hpc] at hs
    cases hs
    have hnobody : s.servingThread = none := h.locks.unmarked (t := t) (by rw [hpc]; rfl) (by rw [hpc]; rfl)
    have hmoves : ThreadMoves s t (.counting limit) { goto s t (.counting limit) with servingThread := some t } :=
      ⟨rfl, rfl, rfl, .inl ⟨rfl, by rw [hpc]; rfl⟩, .inr (.inl ⟨hnobody, rfl, rfl⟩), fun _ => hcaller⟩
    exact h.quiet hmoves (h.closing.serving rfl rfl rfl rfl rfl fun _ => .inl (by rw [hpc]; rfl)) rfl
      (by rw [hpc]; rfl) rfl
  | counting limit =>
    simp only [Serving.threadStep, hpc] at hs
    cases hs
    exact h.passes hpc rfl rfl rfl rfl
  | looping pass =>
    simp only [Serving.threadStep, hpc] at hs
    cases hs
    split
    · exact h.passes hpc rfl rfl rfl rfl
    · exact h.passes hpc rfl rfl rfl rfl
  | reading pass =>
    have hcaller := h.locks.caller (t := t) (by rw [hpc]; rfl)
    simp only [Serving.threadStep, hpc] at hs
    split at hs
    · cases hs
      exact h.passes hpc rfl rfl rfl rfl
    · next message _ =>
      cases hs
      have hmoves : ThreadMoves s t (.serving { pass with taken := pass.taken + 1 } (.decoding s.taken.length message))
          { goto s t (.serving { pass with taken := pass.taken + 1 } (.decoding s.taken.length message)) with
            taken := s.taken ++ [message] } :=
        ⟨rfl, rfl, rfl, .inl ⟨rfl, by rw [hpc]; rfl⟩, .inl ⟨rfl, by rw [hpc]; rfl⟩, fun _ => hcaller⟩
      have hlocks := h.locks.move hmoves
      refine ⟨hlocks, h.closing.serving rfl rfl rfl rfl rfl fun _ => .inl (by rw [hpc]; rfl), ?_⟩
      have hnone : s.current = none := by
        rw [h.locks.current_thread (t := t) (by rw [hpc]; rfl) (by rw [hpc]; rfl), hpc]
        rfl
      have hledger := h.ledger
      rw [hnone] at hledger
      rw [hlocks.current_thread (t := t) (by simp [goto, ThreadPc.calls, ThreadPc.admitted, ThreadPc.marked])
        (by simp [goto, ThreadPc.holds, ThreadPc.admitted, ThreadPc.marked])]
      simp only [goto, Function.update_self]
      exact hledger.take message
  | serving pass pc =>
    simp only [Serving.threadStep, hpc] at hs
    split at hs
    · next pc' hon =>
      cases hs
      exact h.serves hpc answer rfl (by rw [hon]; rfl)
    · next ran hreturned =>
      cases hs
      exact h.serves hpc answer rfl (by rw [hreturned]; rfl)
  | leaving served =>
    have hcaller := h.locks.caller (t := t) (by rw [hpc]; rfl)
    simp only [Serving.threadStep, hpc] at hs
    cases hs
    have howner : s.servingThread = some t := (h.locks.serving t).mpr (by rw [hpc]; rfl)
    have hmoves : ThreadMoves s t (.unlocking (.ok served))
        { goto s t (.unlocking (.ok served)) with servingThread := none } :=
      ⟨rfl, rfl, rfl, .inl ⟨rfl, by rw [hpc]; rfl⟩, .inr (.inr ⟨howner, rfl, rfl⟩), fun _ => hcaller⟩
    exact h.quiet hmoves (h.closing.serving rfl rfl rfl rfl rfl fun ha => (by cases ha)) rfl (by rw [hpc]; rfl) rfl
  | unlocking result =>
    simp only [Serving.threadStep, hpc] at hs
    cases hs
    have howner : s.serveMutex = some t := (h.locks.mutex t).mpr (by rw [hpc]; rfl)
    have hmoves : ThreadMoves s t .outside { goto s t .outside with serveMutex := none } :=
      ⟨rfl, rfl, rfl, .inr (.inr ⟨howner, rfl, rfl⟩), .inl ⟨rfl, by rw [hpc]; rfl⟩, fun hc => (by cases hc)⟩
    exact h.quiet hmoves (h.closing.serving rfl rfl rfl rfl rfl fun ha => (by cases ha)) rfl (by rw [hpc]; rfl) rfl
  | closing close =>
    simp only [Serving.threadStep, hpc] at hs
    exact h.closeStep hpc hs

theorem Good.servePending {limit : Nat} (h : Good s) (hs : Serving.servePending spec s t limit = some s') : Good s' := by
  unfold Serving.servePending at hs
  split at hs
  · next hpc =>
    cases hs
    split
    · exact h
    · next hallowed =>
      have hcaller : s.mode = .caller := by
        by_contra hmode
        simp [refused, hmode] at hallowed
      exact h.quiet (.goto (by rw [hpc]; rfl) (by rw [hpc]; rfl) fun _ => hcaller)
        (h.closing.serving rfl rfl rfl rfl rfl fun ha => (by cases ha)) rfl (by rw [hpc]; rfl) rfl
  · next pass index request hpc =>
    cases hs
    -- the handler runs on the thread that is inside
    have hself : s.servingThread = some t := (h.locks.serving t).mpr (by rw [hpc]; rfl)
    have hrefused : (refused spec s t).isSome = true := by
      by_cases hmode : s.mode = .caller
      · simp [refused, hmode, hself]
      · simp [refused, hmode]
    rw [if_pos hrefused]
    exact h
  · cases hs

theorem Good.close (h : Good s) (hs : Serving.close s t = some s') : Good s' := by
  unfold Serving.close at hs
  split at hs
  · next hpc =>
    split at hs
    · cases hs
      exact h
    · cases hs
      have hmoves : ThreadMoves s t (.closing .joiningHeartbeat)
          { goto s t (.closing .joiningHeartbeat) with closed := true } :=
        ⟨rfl, rfl, rfl, .inl ⟨rfl, by rw [hpc]; rfl⟩, .inl ⟨rfl, by rw [hpc]; rfl⟩, fun hc => (by cases hc)⟩
      refine h.quiet hmoves ?_ rfl (by rw [hpc]; rfl) rfl
      exact h.closing.move rfl rfl (fun _ => rfl) (fun _ => rfl) (fun hj => (by cases hj)) (fun hw => (by cases hw))
        (fun ha => (by cases ha)) .inl
  · split at hs
    · cases hs
      exact h
    · cases hs
  · cases hs

/-! ## Steps of the worker -/

/-- A step of the worker: it is the only runner, and no `Close` has joined it. -/
theorem Good.worker {worker : WorkerPc} (h : Good s) (hrunning : s.worker.stopped = false)
    (hthreads : s'.threads = s.threads) (hmode : s'.mode = s.mode) (hmutex : s'.serveMutex = s.serveMutex)
    (hserving : s'.servingThread = s.servingThread) (hclosed : s'.closed = s.closed)
    (hreturned : s'.closeReturned = s.closeReturned) (hworker : s'.worker = worker)
    (hledger : Ledger s'.books worker.serveOf) : Good s' := by
  obtain ⟨hown, hnone⟩ : s.mode = .ownThread ∧ ∀ t, (s.threads t).calls = false := by
    rcases h.locks.modes with ⟨-, habsent⟩ | hown
    · rw [habsent] at hrunning
      cases hrunning
    · exact hown
  refine ⟨⟨?_, ?_, .inr ⟨hmode.trans hown, ?_⟩⟩, ⟨?_, ?_, ?_, ?_⟩, ?_⟩
  · rw [hthreads, hmutex]
    exact h.locks.mutex
  · rw [hthreads, hserving]
    exact h.locks.serving
  · rw [hthreads]
    exact hnone
  · rw [hthreads, hclosed]
    exact h.closing.closed
  · intro t ht
    rw [hthreads] at ht
    have := h.closing.joined t ht
    rw [hrunning] at this
    cases this
  · rw [hthreads]
    exact h.closing.waited
  · intro hret
    have := (h.closing.returned (hreturned ▸ hret)).2.1
    rw [hrunning] at this
    cases this
  · rw [State.current, hmode, hown, hworker]
    exact hledger

/-- The request that the worker has in hand is the current one. -/
theorem Good.worker_ledger (h : Good s) (hrunning : s.worker.stopped = false) : Ledger s.books s.worker.serveOf := by
  have hledger := h.ledger
  rcases h.locks.modes with ⟨-, habsent⟩ | ⟨hown, -⟩
  · rw [habsent] at hrunning
    cases hrunning
  · rwa [State.current, hown] at hledger

theorem Good.workerStep {answer : Answer} (h : Good s) (hs : Serving.workerStep s answer = some s') : Good s' := by
  cases hpc : s.worker with
  | absent =>
    simp only [Serving.workerStep, hpc] at hs
    cases hs
  | finished =>
    simp only [Serving.workerStep, hpc] at hs
    cases hs
  | waiting =>
    have hrunning : s.worker.stopped = false := by rw [hpc]; rfl
    have hledger := h.worker_ledger hrunning
    rw [hpc] at hledger
    simp only [Serving.workerStep, hpc] at hs
    cases hs
    split
    · exact h.worker hrunning rfl rfl rfl rfl rfl rfl rfl hledger
    · exact h.worker hrunning rfl rfl rfl rfl rfl rfl rfl hledger
  | reading =>
    have hrunning : s.worker.stopped = false := by rw [hpc]; rfl
    have hledger := h.worker_ledger hrunning
    rw [hpc] at hledger
    simp only [Serving.workerStep, hpc] at hs
    split at hs
    · cases hs
      exact h.worker hrunning rfl rfl rfl rfl rfl rfl rfl hledger
    · next message _ =>
      cases hs
      exact h.worker hrunning rfl rfl rfl rfl rfl rfl rfl (hledger.take message)
  | serving pc =>
    have hrunning : s.worker.stopped = false := by rw [hpc]; rfl
    have hledger := h.worker_ledger hrunning
    rw [hpc] at hledger
    have hserved := Ledger.serve hledger answer
    obtain ⟨handled, expired, invoked, fates, heq⟩ := serve_eq s answer pc
    simp only [Serving.workerStep, hpc] at hs
    rw [heq] at hs hserved
    split at hs
    · next pc' hon =>
      cases hs
      rw [hon] at hserved
      exact h.worker hrunning rfl rfl rfl rfl rfl rfl rfl hserved
    · next ran hreturned =>
      cases hs
      rw [hreturned] at hserved
      exact h.worker hrunning rfl rfl rfl rfl rfl rfl rfl hserved
  | checking =>
    have hrunning : s.worker.stopped = false := by rw [hpc]; rfl
    have hledger := h.worker_ledger hrunning
    rw [hpc] at hledger
    simp only [Serving.workerStep, hpc] at hs
    cases hs
    refine h.worker hrunning rfl rfl rfl rfl rfl rfl rfl ?_
    split
    · exact hledger
    · exact hledger

theorem good_initial (mode : ServeMode) : Good (initial mode) := by
  refine ⟨⟨fun t => ?_, fun t => ?_, ?_⟩, ⟨fun t h => ?_, fun t h => ?_, fun t u h => ?_, fun h => ?_⟩, ?_⟩
  · exact ⟨fun h => (by cases h), fun h => (by cases h)⟩
  · exact ⟨fun h => (by cases h), fun h => (by cases h)⟩
  · cases mode with
    | caller => exact .inl ⟨rfl, rfl⟩
    | ownThread => exact .inr ⟨rfl, fun _ => rfl⟩
  · cases h
  · cases h
  · cases h
  · cases h
  · have hcurrent : (initial mode).current = none := by cases mode <;> rfl
    rw [hcurrent]
    exact ⟨rfl, rfl, rfl, .nil, fun _ h => absurd h List.not_mem_nil, fun _ h => absurd h List.not_mem_nil,
      fun _ h => absurd h List.not_mem_nil, rfl, fun _ h => absurd h List.not_mem_nil⟩

theorem Good.step {move : Move} (h : Good s) (hs : Serving.step spec s move = some s') : Good s' := by
  cases move with
  | arrive =>
    cases hs
    exact ⟨⟨h.locks.mutex, h.locks.serving, h.locks.modes⟩,
      ⟨h.closing.closed, h.closing.joined, h.closing.waited, h.closing.returned⟩, h.ledger⟩
  | worker answer => exact h.workerStep hs
  | servePending t limit => exact h.servePending hs
  | close t => exact h.close hs
  | thread t answer => exact h.threadStep hs

/-! ## The discipline -/

inductive Runner where
  | worker
  | thread (t : Nat)
  deriving DecidableEq, Repr

def State.serveOf (s : State) : Runner → Option ServePc
  | .worker => s.worker.serveOf
  | .thread t => (s.threads t).serveOf

/-- The handler is running there. -/
def InHandler (s : State) (runner : Runner) : Prop :=
  ∃ index request, s.serveOf runner = some (.handling index request)

/-- The runner has taken the request at place `k`, and has not counted it yet. -/
def HasTaken (s : State) (runner : Runner) (k : Nat) : Prop :=
  (∃ message, s.serveOf runner = some (.decoding k message)) ∨
    ∃ request, s.serveOf runner = some (.handling k request)

structure Disciplined (s : State) : Prop where
  /-- No two invocations overlap. -/
  alone : ∀ runner runner', InHandler s runner → InHandler s runner' → runner = runner'
  /-- The handler is called in the order of the reader, for a request at most once. -/
  order : (s.invoked.map Prod.fst).Pairwise (· < ·)
  requests : ∀ entry ∈ s.invoked, Decodes s.taken entry.1 entry.2
  /-- A request that was taken has one fate, or it is in the hands of a runner and has none. -/
  counted : ∀ k < s.taken.length,
    (∃ fate, (k, fate) ∈ s.fates ∧ (∀ fate', (k, fate') ∈ s.fates → fate' = fate) ∧ ∀ runner, ¬ HasTaken s runner k) ∨
      (∃ runner, HasTaken s runner k) ∧ ∀ fate, (k, fate) ∉ s.fates
  /-- The fates are what happened and what the counters say. -/
  once : (s.fates.map Prod.fst).Nodup
  handled : s.handled = s.fates.countP fun entry => entry.2 = .handled
  expired : s.expired = s.fates.countP fun entry => entry.2 = .expired
  ran : ∀ k, (k, Fate.handled) ∈ s.fates → k ∈ s.invoked.map Prod.fst
  malformed : ∀ k, (k, Fate.malformed) ∈ s.fates →
    ∃ message, s.taken[k]? = some message ∧ decode message.payload requestMagic = none
  /-- `Close` has returned: the handler is not running. -/
  closed : s.closeReturned = true → ∀ runner, ¬ InHandler s runner

theorem Good.current_of_serving (h : Good s) {runner : Runner} {pc : ServePc} (hserving : s.serveOf runner = some pc) :
    s.current = some pc := by
  cases runner with
  | worker =>
    rcases h.locks.modes with ⟨-, habsent⟩ | ⟨hown, -⟩
    · rw [State.serveOf, habsent] at hserving
      cases hserving
    · rw [State.current, hown]
      exact hserving
  | thread t =>
    have hadmitted := ThreadPc.admitted_of_marked (ThreadPc.marked_of_serving hserving)
    rw [h.locks.current_thread (ThreadPc.calls_of_admitted hadmitted) (ThreadPc.holds_of_admitted hadmitted)]
    exact hserving

/-- Only one runner is in `Serve`. -/
theorem Good.alone (h : Good s) {runner runner' : Runner} {pc pc' : ServePc} (hserving : s.serveOf runner = some pc)
    (hserving' : s.serveOf runner' = some pc') : runner = runner' := by
  have hholds : ∀ {t : Nat} {pc : ServePc}, s.serveOf (.thread t) = some pc → s.serveMutex = some t ∧ s.mode = .caller := by
    intro t pc hpc
    have hadmitted := ThreadPc.admitted_of_marked (ThreadPc.marked_of_serving hpc)
    exact ⟨(h.locks.mutex t).mpr (ThreadPc.holds_of_admitted hadmitted),
      h.locks.caller (ThreadPc.calls_of_admitted hadmitted)⟩
  have hapart : ∀ {t : Nat} {pc pc' : ServePc}, s.serveOf (.thread t) = some pc → s.serveOf .worker ≠ some pc' := by
    intro t pc pc' hpc hworker
    rcases h.locks.modes with ⟨-, habsent⟩ | ⟨hown, -⟩
    · rw [State.serveOf, habsent] at hworker
      cases hworker
    · have := (hholds hpc).2
      rw [hown] at this
      cases this
  cases runner with
  | worker =>
    cases runner' with
    | worker => rfl
    | thread t' => exact absurd hserving (hapart hserving')
  | thread t =>
    cases runner' with
    | worker => exact absurd hserving' (hapart hserving)
    | thread t' =>
      have := (hholds hserving).1.symm.trans (hholds hserving').1
      cases this
      rfl

/-- The runner behind the current one. -/
theorem exists_runner {pc : ServePc} (hcurrent : s.current = some pc) :
    ∃ runner, s.serveOf runner = some pc := by
  unfold State.current at hcurrent
  cases hmode : s.mode with
  | ownThread =>
    rw [hmode] at hcurrent
    exact ⟨.worker, hcurrent⟩
  | caller =>
    rw [hmode] at hcurrent
    obtain ⟨t, -, ht⟩ := Option.bind_eq_some_iff.mp hcurrent
    exact ⟨.thread t, ht⟩

theorem Good.not_serving (h : Good s) (hclosed : s.closeReturned = true) (runner : Runner) : s.serveOf runner = none := by
  obtain ⟨-, hworker, hnone⟩ := h.closing.returned hclosed
  cases runner with
  | worker =>
    rw [State.serveOf]
    revert hworker
    cases s.worker <;> simp [WorkerPc.stopped, WorkerPc.serveOf]
  | thread t =>
    cases hserving : s.serveOf (.thread t) with
    | none => rfl
    | some pc =>
      have := hnone t
      rw [ThreadPc.admitted_of_marked (ThreadPc.marked_of_serving hserving)] at this
      cases this

/-- What a runner has in hand is the request after those with a fate. -/
theorem Good.hasTaken (h : Good s) {runner : Runner} {k : Nat} (htaken : HasTaken s runner k) : k = s.fates.length := by
  have hhand := h.ledger.inHand
  rcases htaken with ⟨message, hserving⟩ | ⟨request, hserving⟩
  · rw [h.current_of_serving hserving] at hhand
    exact hhand.1
  · rw [h.current_of_serving hserving] at hhand
    exact hhand.1

theorem Good.taken_length (h : Good s) : s.taken.length = s.fates.length ∨
    s.taken.length = s.fates.length + 1 ∧ ∃ runner, HasTaken s runner s.fates.length := by
  have hhand := h.ledger.inHand
  cases hcurrent : s.current with
  | none =>
    rw [hcurrent] at hhand
    exact .inl hhand.1
  | some pc =>
    rw [hcurrent] at hhand
    obtain ⟨runner, hrunner⟩ := exists_runner hcurrent
    cases pc with
    | decoding index message =>
      obtain ⟨rfl, hlength, -⟩ := hhand
      exact .inr ⟨hlength, runner, .inl ⟨message, hrunner⟩⟩
    | handling index request =>
      obtain ⟨rfl, hlength, -⟩ := hhand
      exact .inr ⟨hlength, runner, .inr ⟨request, hrunner⟩⟩
    | replying index => exact .inl hhand.1

theorem Good.counted (h : Good s) {k : Nat} (hk : k < s.taken.length) :
    (∃ fate, (k, fate) ∈ s.fates ∧ (∀ fate', (k, fate') ∈ s.fates → fate' = fate) ∧ ∀ runner, ¬ HasTaken s runner k) ∨
      (∃ runner, HasTaken s runner k) ∧ ∀ fate, (k, fate) ∉ s.fates := by
  have hplaces := h.ledger.places
  by_cases hlt : k < s.fates.length
  · have hmem : k ∈ s.books.fates.map Prod.fst := by
      rw [hplaces]
      exact List.mem_range.mpr hlt
    obtain ⟨entry, hentry, rfl⟩ := List.mem_map.mp hmem
    refine .inl ⟨entry.2, hentry, fun fate' hfate' => ?_, fun runner htaken => ?_⟩
    · have hnodup : (s.books.fates.map Prod.fst).Nodup := hplaces ▸ List.nodup_range
      have := List.inj_on_of_nodup_map hnodup hfate' hentry rfl
      exact (congrArg Prod.snd this)
    · rw [h.hasTaken htaken] at hlt
      exact Nat.lt_irrefl _ hlt
  · rcases h.taken_length with hlength | ⟨hlength, hrunner⟩
    · omega
    · have hlast : k = s.fates.length := by omega
      subst hlast
      exact .inr ⟨hrunner, fun fate hfate => Nat.lt_irrefl _ (h.ledger.place_lt hfate)⟩

theorem Good.disciplined (h : Good s) : Disciplined s where
  alone := fun _ _ ⟨_, _, hserving⟩ ⟨_, _, hserving'⟩ => h.alone hserving hserving'
  order := h.ledger.order
  requests := h.ledger.decoded
  counted := fun _ hk => h.counted hk
  once := by
    have hplaces := h.ledger.places
    exact hplaces ▸ List.nodup_range
  handled := h.ledger.handled
  expired := h.ledger.expired
  ran := fun k hk => (h.ledger.ran (k, .handled) hk).mp rfl
  malformed := fun k hk => h.ledger.malformed (k, .malformed) hk rfl
  closed := fun hclosed runner ⟨_, _, hserving⟩ => by
    rw [h.not_serving hclosed runner] at hserving
    cases hserving

/-! ## After Close -/

/-- A thread that is not in `Serve` calls no handler. -/
theorem threadStep_invoked {answer : Answer} (hs : Serving.threadStep spec s t answer = some s')
    (hserve : (s.threads t).serveOf = none) :
    s'.invoked = s.invoked ∧ (s.closeReturned = true → s'.closeReturned = true) := by
  cases hpc : s.threads t with
  | outside | relocking =>
    simp only [Serving.threadStep, hpc] at hs
    cases hs
  | locking limit =>
    simp only [Serving.threadStep, hpc] at hs
    split at hs
    · cases hs
      exact ⟨rfl, id⟩
    · cases hs
  | checking | entering | counting | looping | leaving | unlocking =>
    simp only [Serving.threadStep, hpc] at hs
    cases hs
    exact ⟨rfl, id⟩
  | reading pass =>
    simp only [Serving.threadStep, hpc] at hs
    split at hs
    · cases hs
      exact ⟨rfl, id⟩
    · cases hs
      exact ⟨rfl, id⟩
  | serving pass pc =>
    rw [hpc] at hserve
    cases hserve
  | closing close =>
    simp only [Serving.threadStep, hpc] at hs
    cases close with
    | joiningHeartbeat | announcing | asking | unlocking =>
      cases hs
      exact ⟨rfl, id⟩
    | clearing =>
      cases hs
      exact ⟨rfl, fun _ => rfl⟩
    | joiningWorker | locking =>
      simp only [Serving.closeStep] at hs
      split at hs
      · cases hs
        exact ⟨rfl, id⟩
      · cases hs

theorem Good.closed_step {move : Move} (h : Good s) (hclosed : s.closeReturned = true)
    (hs : Serving.step spec s move = some s') : s'.invoked = s.invoked ∧ s'.closeReturned = true := by
  cases move with
  | arrive =>
    cases hs
    exact ⟨rfl, hclosed⟩
  | worker answer =>
    have hstopped := (h.closing.returned hclosed).2.1
    simp only [Serving.step, Serving.workerStep] at hs
    revert hstopped hs
    cases s.worker <;> simp [WorkerPc.stopped]
  | servePending t limit =>
    simp only [Serving.step, Serving.servePending] at hs
    split at hs
    · cases hs
      split
      · exact ⟨rfl, hclosed⟩
      · exact ⟨rfl, hclosed⟩
    · cases hs
      split
      · exact ⟨rfl, hclosed⟩
      · exact ⟨rfl, hclosed⟩
    · cases hs
  | close t =>
    simp only [Serving.step, Serving.close, (h.closing.returned hclosed).1, if_true] at hs
    split at hs
    · cases hs
      exact ⟨rfl, hclosed⟩
    · cases hs
      exact ⟨rfl, hclosed⟩
    · cases hs
  | thread t answer =>
    obtain ⟨hinvoked, hreturned⟩ := threadStep_invoked hs (h.not_serving hclosed (.thread t))
    exact ⟨hinvoked, hreturned hclosed⟩

theorem Good.closed_run (h : Good s) (hclosed : s.closeReturned = true) {moves : List Move}
    (hrun : run (Serving.step spec) s moves = some s') : (∀ runner, ¬ InHandler s' runner) ∧ s'.invoked = s.invoked := by
  induction moves generalizing s with
  | nil =>
    cases hrun
    exact ⟨h.disciplined.closed hclosed, rfl⟩
  | cons move moves ih =>
    obtain ⟨next, hnext, hrest⟩ := run_cons hrun
    obtain ⟨hinvoked, hreturned⟩ := h.closed_step hclosed hnext
    obtain ⟨hnone, hsame⟩ := ih (h.step hnext) hreturned hrest
    exact ⟨hnone, hsame.trans hinvoked⟩

/-- In every run of a server: one invocation at a time, in the order of the reader, every request with one
    fate; and from the return of the first `Close` on, no invocation runs and none starts. -/
theorem handler_discipline (spec : ServiceDeclaration) {s : State} (h : Reach (step spec) anyMove IsInitial s) :
    Disciplined s ∧ (s.closeReturned = true → ∀ moves s', run (step spec) s moves = some s' →
      (∀ runner, ¬ InHandler s' runner) ∧ s'.invoked = s.invoked) := by
  have hgood : Good s := by
    refine h.invariant ?_ fun _ _ _ hgood _ hs => hgood.step hs
    intro _ h
    obtain ⟨mode, rfl⟩ := h
    exact good_initial mode
  exact ⟨hgood.disciplined, fun hclosed moves s' hrun => hgood.closed_run hclosed hrun⟩

/-- Thread 0 has a request in its handler when thread 1 calls `Close`, which waits for the pass to end. -/
def closeDuringPass : List Move :=
  [Move.servePending 0 1] ++ List.replicate 5 (Move.thread 0 {}) ++
    [Move.thread 0 { message := some ⟨encode { magic := requestMagic, clientId := 1, requestId := 1 } [], ⟨1, 0, 5⟩⟩ },
      .thread 0 {}, .close 1] ++ List.replicate 4 (Move.thread 1 {}) ++ List.replicate 5 (Move.thread 0 {}) ++
    List.replicate 3 (Move.thread 1 {})

def lookupSpec : ServiceDeclaration :=
  { name := text "lookup", heartbeatInterval := 1, request := ⟨text "Key", text "raw", 0⟩,
    reply := ⟨text "Value", text "raw", 0⟩ }

theorem close_waits_for_the_pass :
    ∃ s, Reach (step lookupSpec) anyMove IsInitial s ∧ (s.closeReturned = true ∧ s.handled = 1) ∧ Disciplined s := by
  have hend : (run (step lookupSpec) (initial .caller) closeDuringPass).map
      (fun s => s.closeReturned && s.handled = 1) = some true := by decide +kernel
  have hinitial : IsInitial (initial .caller) := ⟨.caller, rfl⟩
  obtain ⟨s, hreach, hs⟩ := reach_of_run closeDuringPass _ hinitial hend
  exact ⟨s, hreach, by simpa using hs, (handler_discipline lookupSpec hreach).1⟩

end PuppetMaster.Service.Serving
