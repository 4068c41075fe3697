/-
  PuppetMaster.Service.PendingPass — which requests one call of `ServePending` takes, while
  others arrive.

  The requests are numbered in arrival order, those queued when the call begins first: a
  request's number is its place. The reader keeps the last `queueDepth` of them and drops
  the oldest; what it holds are always the latest places. A `Turn` is one round of the loop:
  what `is_closed()` finds, what arrives before `Read`, and two readings of the clock.

  `servePendingCall` is the call as its own thread sees it; in `Service.Serving`, where threads
  interleave, a round is a run of that thread (`round_is_the_threads`).

  (1) `head` is the place that the next `Read` takes: arrivals push it on, a `Read` by one
  (`Requests.Ok.arriveAll`, `passLoop_takes`).
  (2) `head_lt_iff`: of the requests that were queued at the start some are left before a
  given `Read` exactly when fewer have been read and none of the arrivals before it, with the
  `Read`s since, fill the queue.
  (3) `serve_pending_takes_what_was_queued_iff`: the pass keeps to those requests if and only
  if none of its `Read`s comes after the last of them has left and something has arrived.
-/

import PuppetMaster.InMemory.Mailbox
import PuppetMaster.Lib.Lists
import PuppetMaster.Service.Serving

namespace PuppetMaster.Service.Serving

open PuppetMaster.Core PuppetMaster.Lib PuppetMaster.Service
open PuppetMaster.InMemory (Mailbox)

/-! ## The request reader -/

/-- The reader's mailbox, and the requests that were in it when the call began or have arrived since. -/
structure Requests where
  mailbox : Mailbox
  arrived : List Message
  deriving DecidableEq

namespace Requests

/-- A publish delivers into the mailbox. -/
def arrive (r : Requests) (message : Message) : Requests :=
  { mailbox := ((r.mailbox.push message false).map Prod.snd).getD r.mailbox
    arrived := r.arrived ++ [message] }

def arriveAll (r : Requests) (messages : List Message) : Requests := messages.foldl arrive r

/-- The place of the oldest request in the mailbox. -/
def place (r : Requests) : Nat := r.arrived.length - r.mailbox.messages.length

end Requests

/-! ## The pass -/

structure Turn where
  closed : Bool := false
  arrivals : List Message := []
  first : Int := 0
  now : Int := 0
  deriving DecidableEq

/-- What `Serve` makes of a request. -/
def fateOf (message : Message) (turn : Turn) : Fate :=
  match decode message.payload requestMagic with
  | none => .malformed
  | some (header, _) => if isExpired header (receivedAt message turn.first) turn.now then .expired else .handled

structure Taken where
  place : Nat
  message : Message
  fate : Fate
  deriving DecidableEq

structure PassState where
  requests : Requests
  pass : Pass
  taken : List Taken := []

/-- One round of the loop, or `none` where it breaks off. -/
def passTurn (turn : Turn) (p : PassState) : Option PassState :=
  if turn.closed then none
  else
    let requests := p.requests.arriveAll turn.arrivals
    match requests.mailbox.read with
    | (.error _, _) => none
    | (.ok message, rest) =>
      let fate := fateOf message turn
      some {
        requests := { requests with mailbox := rest }
        pass := { p.pass with
          taken := p.pass.taken + 1
          served := if fate = .handled then p.pass.served + 1 else p.pass.served }
        taken := p.taken ++ [⟨requests.place, message, fate⟩] }

/-- `while (taken < budget)`; `fuel` rounds are enough when the budget is no larger (`passLoop_takes`). -/
def passLoop (turns : Nat → Turn) : Nat → PassState → PassState
  | 0, p => p
  | fuel + 1, p =>
    if p.pass.taken < p.pass.budget then
      match passTurn (turns p.pass.taken) p with
      | none => p
      | some next => passLoop turns fuel next
    else p

/-- What a call meets: the server as it finds it, what arrives before it counts, whether the transport can tell, and
    the rounds of its loop. -/
structure Surroundings where
  server : State
  thread : Nat
  beforeCount : List Message := []
  countable : Bool := true
  turns : Nat → Turn

def servePendingPass (spec : ServiceDeclaration) (env : Surroundings) (queued : Mailbox) (limit : Nat) : PassState :=
  let requests := Requests.arriveAll ⟨queued, queued.messages⟩ env.beforeCount
  let budget := budgetOf spec.queueDepth limit (if env.countable then some requests.mailbox.messages.length else none)
  passLoop env.turns budget { requests, pass := { budget } }

/-- `ServePending`: its result and what it took. -/
def servePendingCall (spec : ServiceDeclaration) (env : Surroundings) (queued : Mailbox) (limit : Nat) :
    Result Nat × List Taken :=
  match refused spec env.server env.thread with
  | some status => (.error status, [])
  | none =>
    if env.server.closed then (.error (failedPrecondition spec ": server is closed"), [])
    else
      let p := servePendingPass spec env queued limit
      (.ok p.pass.served, p.taken)

/-! ## The reader keeps the last ones -/

/-- The request reader of `Server::Create` while it is open. -/
structure KeepsLast (depth : Nat) (mailbox : Mailbox) : Prop where
  queued : mailbox.policy.freshness = .queued
  retention : mailbox.policy.retention = .keepLast
  overflow : mailbox.policy.overflow = .dropOldest
  queueDepth : mailbox.policy.queueDepth = depth
  isOpen : mailbox.closed = false
  length_le : mailbox.messages.length ≤ depth

instance (depth : Nat) (mailbox : Mailbox) : Decidable (KeepsLast depth mailbox) :=
  decidable_of_iff (mailbox.policy.freshness = .queued ∧ mailbox.policy.retention = .keepLast
      ∧ mailbox.policy.overflow = .dropOldest ∧ mailbox.policy.queueDepth = depth ∧ mailbox.closed = false
      ∧ mailbox.messages.length ≤ depth)
    ⟨fun h => ⟨h.1, h.2.1, h.2.2.1, h.2.2.2.1, h.2.2.2.2.1, h.2.2.2.2.2⟩,
      fun h => ⟨h.queued, h.retention, h.overflow, h.queueDepth, h.isOpen, h.length_le⟩⟩

variable {depth : Nat}

theorem KeepsLast.push {mailbox : Mailbox} (h : KeepsLast depth mailbox) (message : Message) :
    ∃ kept, mailbox.push message false = some (.ok, { mailbox with messages := kept ++ [message] })
      ∧ kept = mailbox.messages.drop (mailbox.messages.length + 1 - depth) := by
  have hnotify : mailbox.notify false = .ok := by simp [Mailbox.notify]
  have hbounded : InMemory.usesUnboundedQueue mailbox.policy = false := by
    simp [InMemory.usesUnboundedQueue, h.retention]
  have hcapacity : InMemory.queueCapacity mailbox.policy = depth := by
    rw [InMemory.queueCapacity, if_neg (by rw [h.queued]; decide), h.queueDepth]
  unfold Mailbox.push Mailbox.pushQueued
  rw [if_neg (by rw [h.isOpen]; exact Bool.false_ne_true), if_neg (by rw [h.queued]; decide), hbounded, hcapacity,
    h.overflow, hnotify]
  have hle := h.length_le
  by_cases hroom : mailbox.messages.length < depth
  · refine ⟨mailbox.messages, ?_, ?_⟩
    · rw [if_neg Bool.false_ne_true, if_pos hroom]
      rfl
    · rw [show mailbox.messages.length + 1 - depth = 0 from by omega, List.drop_zero]
  · refine ⟨mailbox.messages.tail, ?_, ?_⟩
    · rw [if_neg Bool.false_ne_true, if_neg hroom]
      rfl
    · rw [show mailbox.messages.length + 1 - depth = 1 from by omega, List.drop_one]

/-- The mailbox holds the latest of what has arrived. -/
structure Requests.Ok (depth : Nat) (r : Requests) : Prop where
  keepsLast : KeepsLast depth r.mailbox
  length_le : r.mailbox.messages.length ≤ r.arrived.length
  messages : r.mailbox.messages = r.arrived.drop r.place

namespace Requests

variable {r : Requests}

theorem Ok.arrive (h : r.Ok depth) (hdepth : 0 < depth) (message : Message) :
    (r.arrive message).Ok depth ∧ (r.arrive message).arrived = r.arrived ++ [message]
      ∧ (r.arrive message).place = max r.place (r.arrived.length + 1 - depth) := by
  obtain ⟨kept, hpush, hkept⟩ := h.keepsLast.push message
  have hmailbox : (r.arrive message).mailbox = { r.mailbox with messages := kept ++ [message] } := by
    show ((r.mailbox.push message false).map Prod.snd).getD r.mailbox = _
    rw [hpush]
    rfl
  have hlength := h.length_le
  have hcapacity := h.keepsLast.length_le
  have hmessages : (r.arrive message).mailbox.messages = kept ++ [message] := by rw [hmailbox]
  have hkeptlen : kept.length = r.mailbox.messages.length - (r.mailbox.messages.length + 1 - depth) := by
    rw [hkept, List.length_drop]
  have hplace : (r.arrive message).place = max r.place (r.arrived.length + 1 - depth) := by
    have hp : (r.arrive message).place = r.arrived.length + 1 - (kept.length + 1) := by
      rw [Requests.place, hmessages, List.length_append, List.length_singleton]
      show (r.arrived ++ [message]).length - _ = _
      rw [List.length_append, List.length_singleton]
    rw [hp, hkeptlen, Requests.place]
    omega
  refine ⟨⟨?_, ?_, ?_⟩, rfl, hplace⟩
  · rw [hmailbox]
    refine ⟨h.keepsLast.queued, h.keepsLast.retention, h.keepsLast.overflow, h.keepsLast.queueDepth,
      h.keepsLast.isOpen, ?_⟩
    show (kept ++ [message]).length ≤ depth
    rw [List.length_append, List.length_singleton]
    omega
  · show (r.arrive message).mailbox.messages.length ≤ (r.arrived ++ [message]).length
    rw [hmessages, List.length_append, List.length_append, List.length_singleton]
    omega
  · rw [hmessages, hplace, hkept, h.messages, List.drop_drop]
    show _ = (r.arrived ++ [message]).drop _
    have hle : max r.place (r.arrived.length + 1 - depth) ≤ r.arrived.length := by
      rw [Requests.place]
      omega
    rw [List.drop_append_of_le_length hle, List.length_drop]
    congr 2
    rw [Requests.place]
    omega

theorem Ok.arriveAll (h : r.Ok depth) (hdepth : 0 < depth) (messages : List Message) :
    (r.arriveAll messages).Ok depth ∧ (r.arriveAll messages).arrived = r.arrived ++ messages
      ∧ (r.arriveAll messages).place = max r.place (r.arrived.length + messages.length - depth) := by
  induction messages generalizing r with
  | nil =>
    refine ⟨h, (List.append_nil _).symm, ?_⟩
    have := h.keepsLast.length_le
    have := h.length_le
    show r.place = max r.place (r.arrived.length + 0 - depth)
    rw [Requests.place]
    omega
  | cons message messages ih =>
    obtain ⟨hok, harrived, hplace⟩ := h.arrive hdepth message
    obtain ⟨hok', harrived', hplace'⟩ := ih hok
    refine ⟨hok', ?_, ?_⟩
    · show ((r.arrive message).arriveAll messages).arrived = _
      rw [harrived', harrived, List.append_assoc, List.singleton_append]
    · show ((r.arrive message).arriveAll messages).place = _
      rw [hplace', hplace, harrived, List.length_append, List.length_singleton, List.length_cons]
      omega

theorem Ok.length (h : r.Ok depth) : r.mailbox.messages.length = r.arrived.length - r.place ∧ r.place ≤ r.arrived.length := by
  have := h.length_le
  rw [Requests.place]
  omega

end Requests

/-! ## The place a `Read` takes -/

/-- How many requests arrive between the beginning of the call and its `Read` number `i`. -/
def arrivedBy (env : Surroundings) : Nat → Nat
  | 0 => env.beforeCount.length + (env.turns 0).arrivals.length
  | i + 1 => arrivedBy env i + (env.turns (i + 1)).arrivals.length

/-- The oldest place left before `Read` number `i`, while every `Read` before it finds a request. -/
def head (depth count : Nat) (env : Surroundings) : Nat → Nat
  | 0 => count + arrivedBy env 0 - depth
  | i + 1 => max (head depth count env i + 1) (count + arrivedBy env (i + 1) - depth)

variable {count : Nat} {env : Surroundings}

theorem arrivedBy_mono {i j : Nat} (h : i ≤ j) : arrivedBy env i ≤ arrivedBy env j := by
  induction j with
  | zero => exact Nat.le_of_eq (congrArg _ (Nat.le_zero.mp h))
  | succ j ih =>
    by_cases heq : i = j + 1
    · exact Nat.le_of_eq (congrArg _ heq)
    · exact Nat.le_trans (ih (by omega)) (Nat.le_add_right _ _)

theorem head_lt_head {i j : Nat} (h : i < j) : head depth count env i < head depth count env j := by
  induction j with
  | zero => omega
  | succ j ih =>
    have hstep : head depth count env j < head depth count env (j + 1) :=
      Nat.lt_of_lt_of_le (Nat.lt_succ_self _) (Nat.le_max_left _ _)
    by_cases heq : i = j
    · rw [heq]
      exact hstep
    · exact Nat.lt_trans (ih (by omega)) hstep

theorem le_head (i : Nat) : i ≤ head depth count env i := by
  induction i with
  | zero => exact Nat.zero_le _
  | succ i ih => exact Nat.le_trans (Nat.succ_le_succ ih) (Nat.le_max_left _ _)

/-- With `k` more to go, for the induction. -/
theorem head_add_lt_iff (i k : Nat) :
    head depth count env i + k < count ↔ i + k < count ∧ ∀ j ≤ i, arrivedBy env j + (i - j) + k < depth := by
  induction i generalizing k with
  | zero =>
    have hzero : (∀ j ≤ 0, arrivedBy env j + (0 - j) + k < depth) ↔ arrivedBy env 0 + k < depth := by
      constructor
      · intro h
        exact h 0 (Nat.le_refl 0)
      · intro h j hj
        rw [Nat.le_zero.mp hj]
        exact h
    rw [hzero, head]
    omega
  | succ i ih =>
    have hmax : head depth count env (i + 1) + k < count
        ↔ head depth count env i + (k + 1) < count ∧ count + arrivedBy env (i + 1) - depth + k < count := by
      rw [head]
      omega
    rw [hmax, ih]
    constructor
    · intro h
      obtain ⟨⟨hi, hearlier⟩, hlast⟩ := h
      refine ⟨by omega, ?_⟩
      intro j hj
      by_cases heq : j = i + 1
      · subst heq
        omega
      · have := hearlier j (by omega)
        omega
    · intro h
      obtain ⟨hi, hall⟩ := h
      refine ⟨⟨by omega, ?_⟩, ?_⟩
      · intro j hj
        have := hall j (by omega)
        omega
      · have := hall (i + 1) (Nat.le_refl _)
        omega

/-- Before `Read` number `i` some of the `count` are left: fewer were read, and the arrivals before no `Read` up to it
    fill the queue with what is read since. -/
def SomeLeft (depth count : Nat) (env : Surroundings) (i : Nat) : Prop :=
  i < count ∧ ∀ j ≤ i, arrivedBy env j + (i - j) < depth

instance (depth count : Nat) (env : Surroundings) (i : Nat) : Decidable (SomeLeft depth count env i) :=
  decidable_of_iff (i < count ∧ ∀ j < i + 1, arrivedBy env j + (i - j) < depth)
    ⟨fun h => ⟨h.1, fun j hj => h.2 j (Nat.lt_succ_of_le hj)⟩, fun h => ⟨h.1, fun j hj => h.2 j (Nat.le_of_lt_succ hj)⟩⟩

theorem head_lt_iff {i : Nat} : head depth count env i < count ↔ SomeLeft depth count env i :=
  head_add_lt_iff i 0

/-- While nothing arrives, `Read` number `i` takes place `i`. -/
theorem head_of_quiet (hcount : count ≤ depth) {i : Nat} (hquiet : arrivedBy env i = 0) (hi : i ≤ count) :
    head depth count env i = i := by
  induction i with
  | zero =>
    rw [head, hquiet]
    omega
  | succ i ih =>
    have hle : arrivedBy env i ≤ arrivedBy env (i + 1) := arrivedBy_mono (Nat.le_succ i)
    rw [head, ih (by omega) (by omega), hquiet]
    omega

/-! ## What the loop takes -/

/-- The request that `Read` number `i` takes. -/
structure TakesAt (depth : Nat) (queued : List Message) (env : Surroundings) (i : Nat) (taken : Taken) : Prop where
  place : taken.place = head depth queued.length env i
  message : taken.place < queued.length → queued[taken.place]? = some taken.message
  fate : taken.fate = fateOf taken.message (env.turns i)

/-- `Read` number `i` finds the server open and a request. -/
def Takes (depth : Nat) (queued : List Message) (env : Surroundings) (i : Nat) : Prop :=
  (env.turns i).closed = false ∧ head depth queued.length env i < queued.length + arrivedBy env i

/-- Before round `i`, everything so far having been taken. -/
structure Before (depth : Nat) (queued : List Message) (budget : Nat) (env : Surroundings) (i : Nat) (p : PassState) :
    Prop where
  requests : p.requests.Ok depth
  since : queued <+: p.requests.arrived
  arrived : p.requests.arrived.length + (env.turns i).arrivals.length = queued.length + arrivedBy env i
  place : max p.requests.place (queued.length + arrivedBy env i - depth) = head depth queued.length env i
  budget : p.pass.budget = budget
  taken : p.pass.taken = i
  served : p.pass.served = p.taken.countP fun taken => taken.fate = .handled
  length : p.taken.length = i
  takes : ∀ (k : Nat) (taken : Taken), p.taken[k]? = some taken → TakesAt depth queued env k taken
  passed : ∀ k < i, Takes depth queued env k

variable {queued : List Message} {budget i : Nat} {p : PassState}

/-- The arrivals of the round are in: the mailbox starts at `head`. -/
theorem Before.after (h : Before depth queued budget env i p) (hdepth : 0 < depth) :
    (p.requests.arriveAll (env.turns i).arrivals).Ok depth
      ∧ queued <+: (p.requests.arriveAll (env.turns i).arrivals).arrived
      ∧ (p.requests.arriveAll (env.turns i).arrivals).arrived.length = queued.length + arrivedBy env i
      ∧ (p.requests.arriveAll (env.turns i).arrivals).place = head depth queued.length env i := by
  obtain ⟨hok, harrived, hplace⟩ := h.requests.arriveAll hdepth (env.turns i).arrivals
  have hlength : (p.requests.arriveAll (env.turns i).arrivals).arrived.length = queued.length + arrivedBy env i := by
    rw [harrived, List.length_append, h.arrived]
  refine ⟨hok, ?_, hlength, ?_⟩
  · rw [harrived]
    exact h.since.trans (List.prefix_append _ _)
  · rw [hplace, h.arrived]
    exact h.place

/-- A round breaks off, or takes the request at `head`. -/
theorem Before.turn (h : Before depth queued budget env i p) (hdepth : 0 < depth) :
    (¬ Takes depth queued env i ∧ passTurn (env.turns i) p = none)
      ∨ (Takes depth queued env i ∧ ∃ next, passTurn (env.turns i) p = some next
        ∧ Before depth queued budget env (i + 1) next) := by
  obtain ⟨hok, hsince, hlength, hplace⟩ := h.after hdepth
  obtain ⟨hmessages, hle⟩ := hok.length
  unfold passTurn
  cases hclosed : (env.turns i).closed with
  | true =>
    refine .inl ⟨?_, rfl⟩
    intro htakes
    cases htakes.1.symm.trans hclosed
  | false =>
    simp only [Bool.false_eq_true, if_false]
    generalize p.requests.arriveAll (env.turns i).arrivals = requests at *
    cases hread : requests.mailbox.messages with
    | nil =>
      rw [hread, List.length_nil, hlength, hplace] at hmessages
      refine .inl ⟨?_, ?_⟩
      · intro htakes
        have := htakes.2
        omega
      · rw [show requests.mailbox.read = (.error (.error .unavailable (text "no in-memory message is available")),
          requests.mailbox) by rw [Mailbox.read, hread]]
    | cons message rest =>
      have hmail : requests.mailbox.read = (.ok message, { requests.mailbox with messages := rest }) := by
        rw [Mailbox.read, hread]
      have hrest : rest.length + 1 = queued.length + arrivedBy env i - head depth queued.length env i := by
        rw [hread, List.length_cons, hlength, hplace] at hmessages
        exact hmessages
      have htakes : Takes depth queued env i := ⟨hclosed, by omega⟩
      have hat : requests.arrived[requests.place]? = some message := by
        have hget := congrArg List.head? (hok.messages.symm.trans hread)
        rw [List.head?_drop] at hget
        exact hget
      have hentry : TakesAt depth queued env i ⟨requests.place, message, fateOf message (env.turns i)⟩ := by
        refine ⟨hplace, ?_, rfl⟩
        intro hold
        obtain ⟨later, hlater⟩ := hsince
        rw [← hlater, List.getElem?_append_left hold] at hat
        exact hat
      refine .inr ⟨htakes, ?_⟩
      rw [hmail]
      have hnext : (⟨{ requests.mailbox with messages := rest }, requests.arrived⟩ : Requests).place
          = head depth queued.length env i + 1 := by
        show requests.arrived.length - rest.length = _
        omega
      refine ⟨_, rfl, ⟨⟨?_, ?_, ?_⟩, hsince, ?_, ?_, h.budget, ?_, ?_, ?_, ?_, ?_⟩⟩
      · have hcapacity := hok.keepsLast.length_le
        rw [hread, List.length_cons] at hcapacity
        exact ⟨hok.keepsLast.queued, hok.keepsLast.retention, hok.keepsLast.overflow, hok.keepsLast.queueDepth,
          hok.keepsLast.isOpen, Nat.le_of_succ_le hcapacity⟩
      · show rest.length ≤ requests.arrived.length
        omega
      · show rest = requests.arrived.drop _
        rw [hnext, ← hplace, ← List.tail_drop, ← hok.messages, hread, List.tail_cons]
      · show requests.arrived.length + _ = queued.length + (arrivedBy env i + _)
        rw [hlength, Nat.add_assoc]
      · rw [hnext]
        rfl
      · show p.pass.taken + 1 = i + 1
        rw [h.taken]
      · show (if fateOf message (env.turns i) = .handled then p.pass.served + 1 else p.pass.served) = _
        rw [List.countP_append, ← h.served]
        by_cases hhandled : fateOf message (env.turns i) = .handled
        · rw [if_pos hhandled, List.countP_cons_of_pos (by simpa using hhandled), List.countP_nil]
        · rw [if_neg hhandled, List.countP_cons_of_neg (by simpa using hhandled), List.countP_nil,
            Nat.add_zero]
      · rw [List.length_append, h.length, List.length_singleton]
      · intro k taken hk
        rcases getElem?_concat_cases hk with hk | ⟨rfl, rfl⟩
        · exact h.takes k taken hk
        · rw [h.length]
          exact hentry
      · intro k hk
        by_cases heq : k = i
        · rw [heq]
          exact htakes
        · exact h.passed k (by omega)

/-- The loop ends at the budget or before a `Read` that takes nothing. -/
theorem passLoop_takes {fuel : Nat} (h : Before depth queued budget env i p) (hdepth : 0 < depth)
    (hfuel : i + fuel = budget) :
    ∃ m ≤ budget, Before depth queued budget env m (passLoop env.turns fuel p)
      ∧ (m = budget ∨ ¬ Takes depth queued env m) := by
  induction fuel generalizing i p with
  | zero => exact ⟨i, Nat.le_of_eq hfuel, h, .inl hfuel⟩
  | succ fuel ih =>
    have hmore : p.pass.taken < p.pass.budget := by
      rw [h.taken, h.budget]
      omega
    rw [passLoop, if_pos hmore, h.taken]
    rcases h.turn hdepth with ⟨hnot, hturn⟩ | ⟨-, next, hturn, hnext⟩
    · rw [hturn]
      exact ⟨i, by omega, h, .inr hnot⟩
    · rw [hturn]
      exact ih hnext (by omega)

/-! ## What was queued -/

/-- The call takes only requests that were queued when it began, in arrival order, and counts the handled ones. -/
structure TakesWhatWasQueued (queued : List Message) (limit : Nat) (env : Surroundings)
    (out : Result Nat × List Taken) : Prop where
  inOrder : out.2.Pairwise fun a b => a.place < b.place
  wereQueued : ∀ taken ∈ out.2, queued[taken.place]? = some taken.message
  atMost : limit ≠ 0 → out.2.length ≤ limit
  all : limit = 0 → out.1.isOk = true → (∀ i < queued.length, (env.turns i).closed = false) →
    out.2.length = queued.length
  returned : ∀ served, out.1 = .ok served → served = out.2.countP fun taken => taken.fate = .handled
  refused : ∀ status, out.1 = .error status → out.2 = []
  fates : ∀ (i : Nat) (taken : Taken), out.2[i]? = some taken → taken.fate = fateOf taken.message (env.turns i)

/-- The call gets past its checks. -/
def Accepted (spec : ServiceDeclaration) (env : Surroundings) : Prop :=
  refused spec env.server env.thread = none ∧ env.server.closed = false

/-- The bound of the pass, when `count` requests are queued as the call begins. -/
def passBudget (spec : ServiceDeclaration) (env : Surroundings) (count limit : Nat) : Nat :=
  budgetOf spec.queueDepth limit
    (if env.countable then some (min spec.queueDepth (count + env.beforeCount.length)) else none)

variable {spec : ServiceDeclaration} {limit : Nat} {mailbox : Mailbox}

/-- Before the loop. -/
theorem pass_before (h : KeepsLast depth mailbox) (hdepth : 0 < depth) (env : Surroundings) :
    let requests := Requests.arriveAll ⟨mailbox, mailbox.messages⟩ env.beforeCount
    (∀ budget, Before depth mailbox.messages budget env 0 { requests, pass := { budget } })
      ∧ requests.mailbox.messages.length = min depth (mailbox.messages.length + env.beforeCount.length) := by
  have hstart : Requests.Ok depth ⟨mailbox, mailbox.messages⟩ := by
    refine ⟨h, Nat.le_refl _, ?_⟩
    show mailbox.messages = mailbox.messages.drop (mailbox.messages.length - mailbox.messages.length)
    rw [Nat.sub_self, List.drop_zero]
  obtain ⟨hok, harrived, hplace⟩ := hstart.arriveAll hdepth env.beforeCount
  have hzero : Requests.place ⟨mailbox, mailbox.messages⟩ = 0 := Nat.sub_self _
  rw [hzero] at hplace
  have hlength : (Requests.arriveAll ⟨mailbox, mailbox.messages⟩ env.beforeCount).arrived.length
      = mailbox.messages.length + env.beforeCount.length := by
    rw [harrived, List.length_append]
  refine ⟨fun budget => ⟨hok, ?_, ?_, ?_, rfl, rfl, rfl, rfl, ?_, ?_⟩, ?_⟩
  · rw [harrived]
    exact List.prefix_append _ _
  · show (Requests.arriveAll ⟨mailbox, mailbox.messages⟩ env.beforeCount).arrived.length + _ = _
    rw [hlength, arrivedBy]
    omega
  · show max (Requests.arriveAll ⟨mailbox, mailbox.messages⟩ env.beforeCount).place _ = head depth _ env 0
    rw [hplace, head, arrivedBy]
    show max (max 0 (mailbox.messages.length + env.beforeCount.length - depth)) _ = _
    omega
  · intro k taken hk
    cases hk
  · intro k hk
    omega
  · rw [hok.length.1, hlength, hplace]
    show _ - max 0 (mailbox.messages.length + env.beforeCount.length - depth) = _
    have := h.length_le
    omega

/-- How far a call gets that is not refused. -/
theorem pass_takes (h : KeepsLast spec.queueDepth mailbox) (hdepth : 0 < spec.queueDepth) :
    ∃ m ≤ passBudget spec env mailbox.messages.length limit,
      Before spec.queueDepth mailbox.messages (passBudget spec env mailbox.messages.length limit) env m
        (servePendingPass spec env mailbox limit)
      ∧ (m = passBudget spec env mailbox.messages.length limit ∨ ¬ Takes spec.queueDepth mailbox.messages env m) := by
  obtain ⟨hbefore, hcount⟩ := pass_before h hdepth env
  have hbudget : budgetOf spec.queueDepth limit (if env.countable then
      some (Requests.arriveAll ⟨mailbox, mailbox.messages⟩ env.beforeCount).mailbox.messages.length else none)
      = passBudget spec env mailbox.messages.length limit := by
    rw [passBudget, hcount]
  unfold servePendingPass
  dsimp only
  rw [hbudget]
  exact passLoop_takes (hbefore _) hdepth (Nat.zero_add _)

/-- A pass that has taken none but the queued ones and finds nothing more has taken them all, and nothing has come. -/
theorem drained_takes_all {m : Nat} (hle : queued.length ≤ depth) (hdepth : 0 < depth)
    (hold : ∀ k < m, head depth queued.length env k < queued.length)
    (hnone : queued.length + arrivedBy env m ≤ head depth queued.length env m) :
    m = queued.length ∧ arrivedBy env m = 0 := by
  cases m with
  | zero =>
    rw [head] at hnone
    omega
  | succ m =>
    have hlast := hold m (Nat.lt_succ_self m)
    have hquiet : arrivedBy env (m + 1) = 0 := by
      rw [head] at hnone
      omega
    have hlt : m < queued.length := Nat.lt_of_le_of_lt (le_head m) hlast
    rw [head_of_quiet hle hquiet hlt] at hnone
    exact ⟨by omega, hquiet⟩

/-- A pass of `m` rounds takes none but the queued ones if and only if no `Read` that its budget and `Close` leave it
    comes when they are gone and something has arrived. -/
theorem takes_old_iff {m : Nat} (hle : queued.length ≤ depth) (hdepth : 0 < depth)
    (hpassed : ∀ k < m, Takes depth queued env k) (hm : m ≤ budget) (hstop : m = budget ∨ ¬ Takes depth queued env m) :
    (∀ k < m, head depth queued.length env k < queued.length)
      ↔ ∀ i < budget, (∀ j ≤ i, (env.turns j).closed = false) →
        SomeLeft depth queued.length env i ∨ (queued.length ≤ i ∧ arrivedBy env queued.length = 0) := by
  constructor
  · intro hold i hi hopen
    by_cases hsome : head depth queued.length env i < queued.length
    · exact .inl (head_lt_iff.mp hsome)
    · -- the pass has ended by now: not by its budget, nor by `Close`, so the queue was empty
      have hmi : m ≤ i := Nat.le_of_not_lt fun hlt => hsome (hold i hlt)
      have hnot : ¬ Takes depth queued env m := hstop.resolve_left (by omega)
      have hnone : queued.length + arrivedBy env m ≤ head depth queued.length env m :=
        Nat.le_of_not_lt fun hlt => hnot ⟨hopen m hmi, hlt⟩
      obtain ⟨rfl, hquiet⟩ := drained_takes_all hle hdepth hold hnone
      exact .inr ⟨hmi, hquiet⟩
  · intro hall k hk
    have hopen (j : Nat) (hj : j ≤ k) : (env.turns j).closed = false := (hpassed j (by omega)).1
    rcases hall k (by omega) hopen with hsome | ⟨hpast, hquiet⟩
    · exact head_lt_iff.mpr hsome
    · -- the `Read` after the last of them would have found nothing
      have hfinds := (hpassed queued.length (by omega)).2
      rw [head_of_quiet hle hquiet (Nat.le_refl _), hquiet] at hfinds
      omega

/-- `ServePending` keeps to what was queued when it was called, if and only if none of its `Read`s comes when those are
    gone and something has arrived. -/
theorem serve_pending_takes_what_was_queued_iff (h : KeepsLast spec.queueDepth mailbox) (hdepth : 0 < spec.queueDepth) :
    TakesWhatWasQueued mailbox.messages limit env (servePendingCall spec env mailbox limit)
      ↔ (Accepted spec env → ∀ i < passBudget spec env mailbox.messages.length limit,
        (∀ j ≤ i, (env.turns j).closed = false) →
          SomeLeft spec.queueDepth mailbox.messages.length env i
          ∨ (mailbox.messages.length ≤ i ∧ arrivedBy env mailbox.messages.length = 0)) := by
  by_cases haccepted : Accepted spec env
  swap
  · have hrefused : ∃ status, servePendingCall spec env mailbox limit = (.error status, []) := by
      unfold servePendingCall
      cases hr : refused spec env.server env.thread with
      | some status => exact ⟨status, rfl⟩
      | none =>
        cases hc : env.server.closed with
        | true => exact ⟨_, rfl⟩
        | false => exact absurd ⟨hr, hc⟩ haccepted
    obtain ⟨status, hout⟩ := hrefused
    rw [hout]
    refine ⟨fun _ hno => absurd hno haccepted, fun _ => ⟨.nil, ?_, fun _ => Nat.zero_le _, ?_, ?_, fun _ _ => rfl, ?_⟩⟩
    · intro taken hmem
      cases hmem
    · intro _ hok
      cases hok
    · intro served hserved
      cases hserved
    · intro i taken hi
      cases hi
  have hout : servePendingCall spec env mailbox limit
      = (.ok (servePendingPass spec env mailbox limit).pass.served, (servePendingPass spec env mailbox limit).taken) := by
    unfold servePendingCall
    rw [haccepted.1, haccepted.2]
    rfl
  obtain ⟨m, hm, hend, hstop⟩ := @pass_takes env spec limit mailbox h hdepth
  have hold := takes_old_iff h.length_le hdepth hend.passed hm hstop
  have hplaces (k : Nat) (taken : Taken) (hk : (servePendingPass spec env mailbox limit).taken[k]? = some taken) :
      taken.place = head spec.queueDepth mailbox.messages.length env k := (hend.takes k taken hk).place
  rw [hout]
  constructor
  · intro hkeeps _
    refine hold.mp fun k hk => ?_
    obtain ⟨taken, hat⟩ : ∃ taken, (servePendingPass spec env mailbox limit).taken[k]? = some taken :=
      ⟨_, List.getElem?_eq_getElem (by rw [hend.length]; exact hk)⟩
    have hqueued := hkeeps.wereQueued taken (List.mem_of_getElem? hat)
    rw [← hplaces k taken hat]
    exact (List.getElem?_eq_some_iff.mp hqueued).1
  · intro hcondition
    have hhead := hold.mpr (hcondition haccepted)
    refine ⟨?_, ?_, ?_, ?_, ?_, ?_, ?_⟩
    · refine List.pairwise_iff_getElem.mpr fun a b ha hb hab => ?_
      rw [hplaces a _ (List.getElem?_eq_getElem ha), hplaces b _ (List.getElem?_eq_getElem hb)]
      exact head_lt_head hab
    · intro taken hmem
      obtain ⟨k, hk⟩ := List.mem_iff_getElem?.mp hmem
      obtain ⟨hlt, -⟩ := List.getElem?_eq_some_iff.mp hk
      refine (hend.takes k taken hk).message ?_
      rw [hplaces k taken hk]
      exact hhead k (by rw [← hend.length]; exact hlt)
    · intro hlimit
      rw [passBudget, budgetOf, if_neg hlimit] at hm
      exact hend.length.trans_le hm
    · intro hlimit _ hopen
      refine hend.length.trans ?_
      have henough : mailbox.messages.length ≤ passBudget spec env mailbox.messages.length limit := by
        have := h.length_le
        rw [passBudget, budgetOf, if_pos hlimit]
        split
        · show _ ≤ min _ _
          omega
        · exact this
      have hfew : m ≤ mailbox.messages.length := by
        by_cases hzero : m = 0
        · omega
        · have := hhead (m - 1) (by omega)
          have hle : m - 1 ≤ head spec.queueDepth mailbox.messages.length env (m - 1) := le_head _
          omega
      by_cases hshort : m = mailbox.messages.length
      · exact hshort
      · have hnot := hstop.resolve_left (by omega)
        have hnone := Nat.le_of_not_lt fun hlt => hnot ⟨hopen m (by omega), hlt⟩
        exact (drained_takes_all h.length_le hdepth hhead hnone).1
    · intro served hserved
      cases hserved
      exact hend.served
    · intro status hstatus
      cases hstatus
    · intro i taken hi
      exact (hend.takes i taken hi).fate

/-! ## The pass and the thread that runs it -/

/-- The steps of the thread in one round; `message` is what `Read` gives. -/
def roundMoves (t : Nat) (turn : Turn) (message : Option Message) : List Move :=
  .thread t {} :: if turn.closed then [] else .thread t { message } ::
    match message with
    | none => []
    | some message =>
      .thread t { first := turn.first, now := turn.now } ::
        if fateOf message turn = .handled then [.thread t {}, .thread t {}] else []

/-- A round is what the thread does from `looping` on: it takes the same request with the same fate, and is back at
    `looping`, or on its way out. -/
theorem round_is_the_threads {spec : ServiceDeclaration} {s : State} {t : Nat} {turn : Turn} {p : PassState}
    (hpc : s.threads t = .looping p.pass) (hclosed : s.closed = turn.closed) (hmore : p.pass.taken < p.pass.budget) :
    ∃ s', run (step spec) s (roundMoves t turn (p.requests.arriveAll turn.arrivals).mailbox.messages.head?) = some s' ∧
      match passTurn turn p with
      | none => s'.threads t = .leaving p.pass.served ∧ s'.taken = s.taken
      | some next => s'.threads t = .looping next.pass ∧ ∃ place message fate,
          next.taken = p.taken ++ [⟨place, message, fate⟩] ∧ s'.taken = s.taken ++ [message]
            ∧ s'.fates = s.fates ++ [(s.taken.length, fate)] := by
  generalize hrequests : p.requests.arriveAll turn.arrivals = requests
  have hlooping : step spec s (.thread t {})
      = some (goto s t (if turn.closed = false then .reading p.pass else .leaving p.pass.served)) := by
    simp only [step, threadStep, hpc, hmore, hclosed, true_and]
  unfold passTurn roundMoves
  rw [hrequests, run, hlooping]
  cases hc : turn.closed with
  | true => exact ⟨_, rfl, Function.update_self .., rfl⟩
  | false =>
    have hreading (message : Option Message) :
        step spec (goto s t (.reading p.pass)) (.thread t { message }) = match message with
          | none => some (goto (goto s t (.reading p.pass)) t (.leaving p.pass.served))
          | some message => some { goto (goto s t (.reading p.pass)) t
              (.serving { p.pass with taken := p.pass.taken + 1 } (.decoding s.taken.length message)) with
            taken := s.taken ++ [message] } := by
      cases message with
      | none => simp only [step, threadStep, goto, Function.update_self]
      | some message => simp only [step, threadStep, goto, Function.update_self]
    simp only [if_true, Bool.false_eq_true, if_false, Option.bind_some, run, hreading]
    cases hread : requests.mailbox.messages with
    | nil =>
      simp only [Mailbox.read, hread, List.head?_nil]
      exact ⟨_, rfl, Function.update_self .., rfl⟩
    | cons message rest =>
      simp only [Mailbox.read, hread, List.head?_cons, Option.bind_some, run, goto, Function.update_idem]
      cases hd : decode message.payload requestMagic with
      | none =>
        have hfate : fateOf message turn = .malformed := by rw [fateOf, hd]
        simp only [hfate, step, threadStep, Function.update_self, serve, hd, goto, Option.bind_some]
        refine ⟨_, rfl, Function.update_self .., _, _, _, rfl, rfl, rfl⟩
      | some decoded =>
        obtain ⟨header, payload⟩ := decoded
        cases he : isExpired header (receivedAt message turn.first) turn.now with
        | true =>
          have hfate : fateOf message turn = .expired := by rw [fateOf, hd]; exact if_pos he
          simp only [hfate, step, threadStep, Function.update_self, serve, hd, he, goto]
          refine ⟨_, rfl, Function.update_self .., _, _, _, rfl, rfl, rfl⟩
        | false =>
          have hfate : fateOf message turn = .handled := by
            rw [fateOf, hd]
            exact if_neg (by rw [he]; exact Bool.false_ne_true)
          simp only [hfate, step, threadStep, Function.update_self, serve, hd, he, goto, Option.bind_some, run, if_true,
            Bool.false_eq_true, if_false]
          refine ⟨_, rfl, Function.update_self .., _, _, _, rfl, rfl, rfl⟩


/-- A service with room for two requests. -/
def querySpec : ServiceDeclaration :=
  { name := text "query", heartbeatInterval := 1, queueDepth := 2, request := ⟨text "Key", text "raw", 0⟩,
    reply := ⟨text "Value", text "raw", 0⟩ }

def query (id : UInt64) : Message := ⟨encode { magic := requestMagic, clientId := 1, requestId := id } [], ⟨id.toNat, 0, 5⟩⟩

def queryReader (messages : List Message) : Mailbox :=
  { policy := { freshness := .queued, queueDepth := 2 }, messages, hasCallback := false, closed := false }

/-- The third request arrives after the first `Read`. -/
def thirdArrives : Surroundings :=
  { server := initial .caller, thread := 0, turns := fun i => if i = 1 then { arrivals := [query 3] } else {} }

theorem a_pass_leaves_the_next_request :
    TakesWhatWasQueued [query 1, query 2] 0 thirdArrives
      (servePendingCall querySpec thirdArrives (queryReader [query 1, query 2]) 0) := by
  have hreader : KeepsLast querySpec.queueDepth (queryReader [query 1, query 2]) := by decide
  refine (serve_pending_takes_what_was_queued_iff hreader (by decide)).mpr ?_
  intro _
  decide +kernel

theorem a_limit_lets_the_next_request_in :
    KeepsLast querySpec.queueDepth (queryReader [query 1])
      ∧ (servePendingCall querySpec thirdArrives (queryReader [query 1]) 2).2.map Taken.message = [query 1, query 3]
      ∧ ¬ TakesWhatWasQueued [query 1] 2 thirdArrives (servePendingCall querySpec thirdArrives (queryReader [query 1]) 2) := by
  have htaken : (servePendingCall querySpec thirdArrives (queryReader [query 1]) 2).2
      = [⟨0, query 1, .handled⟩, ⟨1, query 3, .handled⟩] := by decide +kernel
  refine ⟨by decide, by rw [htaken]; rfl, fun h => ?_⟩
  have hqueued := h.wereQueued ⟨1, query 3, .handled⟩ (by rw [htaken]; decide)
  cases hqueued

end PuppetMaster.Service.Serving
