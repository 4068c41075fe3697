/-
  PuppetMaster.InMemory.MailboxPolicy — a mailbox over a whole run of pushes, reads and a close.

  Any number of threads push. One that finds a bounded queue full, with overflow kBlock, sleeps
  on `space_available_`; `wake` ends a sleep, by a notification or for no reason, and the next
  `push` of the thread looks again. A close is two steps, the section under the mutex and the
  notification after it.

  `Follows` is the policy on its own: a reference queue, and what each event makes of it.
  - `mailbox_follows_its_policy`: the history of every run is one of the reference queue, with
    the mailbox's contents; what the reference queue keeps over a whole history; and no push
    sleeps while there is room, or once a close has notified.

  History: the pushes that have returned (or are about to, outside the mutex), reads, closes.
-/

import Mathlib.Data.List.DropRight
import Mathlib.Data.List.Infix
import Mathlib.Logic.Function.Basic
import PuppetMaster.InMemory.Mailbox
import PuppetMaster.Lib.Run

namespace PuppetMaster.InMemory.Policy

open PuppetMaster.Core PuppetMaster.Lib

/-! ## The machine -/

inductive PushPc where
  | idle
  | sleeping (message : Message)
  | woken (message : Message)
  deriving DecidableEq

/-- Asleep no more, if it was. -/
def PushPc.wake : PushPc → PushPc
  | .sleeping message => .woken message
  | pc => pc

structure ReadOptions where
  wait : Bool := false
  timeout : Int := 0
  deriving DecidableEq

inductive Event where
  | pushed (message : Message) (status : Status)
  | read (result : Result Message)
  | closed
  deriving DecidableEq

structure State where
  mailbox : Mailbox
  pushers : Nat → PushPc
  /-- Closes that have still to notify. -/
  closing : Nat
  history : List Event

def initial (policy : MessagePolicy) : State where
  mailbox := .fresh policy
  pushers _ := .idle
  closing := 0
  history := []

inductive Move where
  | push (t : Nat) (message : Message) (throws : Bool)
  | wake (t : Nat)
  | pushAgain (t : Nat) (throws : Bool)
  | read (options : ReadOptions) (timedOut : Bool)
  | close
  | closeNotifies
  | setDataAvailableCallback (hasCallback : Bool)
  deriving DecidableEq

def State.note (s : State) (event : Event) : State := { s with history := s.history ++ [event] }

def State.goto (s : State) (t : Nat) (pc : PushPc) : State := { s with pushers := Function.update s.pushers t pc }

/-- `space_available_.notify_all()`. -/
def State.notifySpace (s : State) : State := { s with pushers := fun t => (s.pushers t).wake }

/-- `Push`, from its beginning or from where it sleeps. -/
def State.attempt (s : State) (t : Nat) (message : Message) (throws : Bool) : State :=
  match s.mailbox.push message throws with
  | some (status, mailbox) => { (s.goto t .idle).note (.pushed message status) with mailbox := mailbox }
  | none => s.goto t (.sleeping message)

def timedOutWaiting : Status := .error .deadlineExceeded (text "timed out waiting for in-memory message")

def step (s : State) : Move → Option State
  | .push t message throws =>
    match s.pushers t with
    | .idle => some (s.attempt t message throws)
    | _ => none
  | .wake t =>
    match s.pushers t with
    | .sleeping message => some (s.goto t (.woken message))
    | _ => none
  | .pushAgain t throws =>
    match s.pushers t with
    | .woken message => some (s.attempt t message throws)
    | _ => none
  | .read options timedOut =>
    if options.wait && !s.mailbox.closed && s.mailbox.messages.isEmpty then
      if decide (0 < options.timeout) && timedOut then some (s.note (.read (.error timedOutWaiting))) else none
    else
      match s.mailbox.messages with
      | [] => some (s.note (.read s.mailbox.read.1))
      | _ :: _ => some { s.notifySpace.note (.read s.mailbox.read.1) with mailbox := s.mailbox.read.2 }
  | .close => some { s.note .closed with mailbox := s.mailbox.close, closing := s.closing + 1 }
  | .closeNotifies =>
    match s.closing with
    | 0 => none
    | closing + 1 => some { s.notifySpace with closing := closing }
  | .setDataAvailableCallback hasCallback =>
    some { s with mailbox := { s.mailbox with hasCallback := hasCallback } }

/-! ## The reference queue -/

/-- The unread messages, the oldest first. -/
structure Reference where
  unread : List Message := []
  closed : Bool := false
  deriving DecidableEq

/-- What a policy makes of a message that is offered while others are unread: the unread messages afterwards, or a
    refusal. Without either the message has to wait. -/
inductive Verdict where
  | keeps (unread : List Message)
  | refuses
  | waits
  deriving DecidableEq

def verdict (policy : MessagePolicy) (unread : List Message) (message : Message) : Verdict :=
  match policy.freshness, policy.retention with
  | .latest, _ => .keeps ((unread ++ [message]).rtake 1)
  | .queued, .keepAll => .keeps (unread ++ [message])
  | .queued, .keepLast =>
    match policy.overflow with
    | .dropOldest => .keeps ((unread ++ [message]).rtake policy.queueDepth)
    | .dropNewest => .keeps ((unread ++ [message]).take policy.queueDepth)
    | .reject => if unread.length < policy.queueDepth then .keeps (unread ++ [message]) else .refuses
    | .block => if unread.length < policy.queueDepth then .keeps (unread ++ [message]) else .waits

def queueFull : Status := .error .resourceExhausted (text "in-memory reader queue is full")

def callbackFailed : Status := .error .internal (text "in-memory reader callback failed")

def nothingAvailable : Status := .error .unavailable (text "no in-memory message is available")

/-- What an event makes of the reference queue. -/
inductive Follows (policy : MessagePolicy) : Reference → Event → Reference → Prop
  | keeps {unread after : List Message} {message : Message} {status : Status}
      (verdict : verdict policy unread message = .keeps after) (answer : status = .ok ∨ status = callbackFailed) :
      Follows policy ⟨unread, false⟩ (.pushed message status) ⟨after, false⟩
  | refuses {unread : List Message} {message : Message} (verdict : verdict policy unread message = .refuses) :
      Follows policy ⟨unread, false⟩ (.pushed message queueFull) ⟨unread, false⟩
  | tooLate {unread : List Message} {message : Message} :
      Follows policy ⟨unread, true⟩ (.pushed message Mailbox.mailboxClosed) ⟨unread, true⟩
  | read {message : Message} {unread : List Message} {closed : Bool} :
      Follows policy ⟨message :: unread, closed⟩ (.read (.ok message)) ⟨unread, closed⟩
  | empty {closed : Bool} : Follows policy ⟨[], closed⟩ (.read (.error nothingAvailable)) ⟨[], closed⟩
  | timedOut : Follows policy ⟨[], false⟩ (.read (.error timedOutWaiting)) ⟨[], false⟩
  | close {unread : List Message} {closed : Bool} : Follows policy ⟨unread, closed⟩ .closed ⟨unread, true⟩

/-- A history of the reference queue, from the empty one. -/
inductive Replays (policy : MessagePolicy) : List Event → Reference → Prop
  | nil : Replays policy [] {}
  | snoc {history : List Event} {event : Event} {r r' : Reference} (before : Replays policy history r)
      (step : Follows policy r event r') : Replays policy (history ++ [event]) r'

/-- The messages whose push succeeded (up to the callback), in the order in which they were taken. -/
def accepted (history : List Event) : List Message :=
  history.filterMap fun event =>
    match event with
    | .pushed message status => if status = .ok ∨ status = callbackFailed then some message else none
    | _ => none

/-- The messages that were read. -/
def received (history : List Event) : List Message :=
  history.filterMap fun event =>
    match event with
    | .read (.ok message) => some message
    | _ => none

/-! ## What the reference queue keeps -/

variable {policy : MessagePolicy} {history : List Event} {r r' : Reference}

/-- The most messages that are unread at a time. -/
def bound (policy : MessagePolicy) : Option Nat :=
  match policy.freshness, policy.retention with
  | .latest, _ => some 1
  | .queued, .keepAll => none
  | .queued, .keepLast => some policy.queueDepth

def DropsNewest (policy : MessagePolicy) : Prop :=
  policy.freshness = .queued ∧ policy.retention = .keepLast ∧ policy.overflow = .dropNewest

/-- No message is given up for another one. -/
def Lossless (policy : MessagePolicy) : Prop :=
  policy.freshness = .queued ∧ (policy.retention = .keepAll ∨ policy.overflow = .block ∨ policy.overflow = .reject)

theorem rtake_suffix {α : Type} (l : List α) (n : Nat) : l.rtake n <:+ l := List.drop_suffix _ _

theorem length_rtake {α : Type} (l : List α) (n : Nat) : (l.rtake n).length ≤ n := by
  rw [List.rtake, List.length_drop]
  omega

/-- What is kept, by the kind of the policy. -/
theorem keeps_cases {unread after : List Message} {message : Message} (h : verdict policy unread message = .keeps after) :
    after = unread ++ [message] ∧ (∀ n, bound policy = some n → unread.length < n)
      ∨ (∃ n, bound policy = some n ∧ ¬ Lossless policy ∧ ¬ DropsNewest policy ∧ after = (unread ++ [message]).rtake n)
      ∨ (∃ n, bound policy = some n ∧ DropsNewest policy ∧ ¬ Lossless policy ∧ after = (unread ++ [message]).take n) := by
  unfold verdict at h
  unfold bound DropsNewest Lossless
  cases hf : policy.freshness with
  | latest =>
    rw [hf] at h
    cases h
    exact .inr (.inl ⟨1, rfl, by simp, by simp, rfl⟩)
  | queued =>
    cases hr : policy.retention with
    | keepAll =>
      rw [hf, hr] at h
      cases h
      exact .inl ⟨rfl, fun n hn => by cases hn⟩
    | keepLast =>
      rw [hf, hr] at h
      dsimp only at h ⊢
      cases ho : policy.overflow with
      | dropOldest =>
        rw [ho] at h
        cases h
        exact .inr (.inl ⟨_, rfl, by simp, by simp, rfl⟩)
      | dropNewest =>
        rw [ho] at h
        cases h
        exact .inr (.inr ⟨_, rfl, by simp, by simp, rfl⟩)
      | reject | block =>
        rw [ho] at h
        dsimp only at h
        split at h
        · rename_i hroom
          cases h
          refine .inl ⟨rfl, fun n hn => ?_⟩
          cases hn
          exact hroom
        · cases h

/-- What holds of a history of the reference queue. -/
structure Promises (policy : MessagePolicy) (history : List Event) (r : Reference) : Prop where
  bounded : ∀ n, bound policy = some n → r.unread.length ≤ n
  /-- Read in the order of the pushes. -/
  fifo : (received history ++ r.unread).Sublist (accepted history)
  /-- The unread messages are the newest ones. -/
  newest : ¬ DropsNewest policy → r.unread <:+ accepted history
  lossless : Lossless policy → received history ++ r.unread = accepted history

theorem accepted_snoc (event : Event) : accepted (history ++ [event]) = accepted history ++ accepted [event] :=
  List.filterMap_append

theorem received_snoc (event : Event) : received (history ++ [event]) = received history ++ received [event] :=
  List.filterMap_append

theorem accepted_pushed {message : Message} {status : Status} (h : status = .ok ∨ status = callbackFailed) :
    accepted [.pushed message status] = [message] := by
  simp [accepted, h]

theorem Promises.keeps {unread after : List Message} {message : Message} {status : Status}
    (h : Promises policy history ⟨unread, false⟩) (hverdict : verdict policy unread message = .keeps after)
    (hanswer : status = .ok ∨ status = callbackFailed) :
    Promises policy (history ++ [.pushed message status]) ⟨after, false⟩ := by
  have haccepted : accepted (history ++ [.pushed message status]) = accepted history ++ [message] := by
    rw [accepted_snoc, accepted_pushed hanswer]
  have hreceived : received (history ++ [.pushed message status]) = received history := by
    rw [received_snoc]
    exact List.append_nil _
  have hall : (received history ++ (unread ++ [message])).Sublist (accepted history ++ [message]) := by
    rw [← List.append_assoc]
    exact h.fifo.append (List.Sublist.refl _)
  have hend (hnot : ¬ DropsNewest policy) : unread ++ [message] <:+ accepted history ++ [message] := by
    obtain ⟨past, hpast⟩ := h.newest hnot
    exact ⟨past, by rw [← hpast, List.append_assoc]⟩
  rcases keeps_cases hverdict with ⟨rfl, hroom⟩ | ⟨n, hn, hlossy, hnot, rfl⟩ | ⟨n, hn, hdrops, hlossy, rfl⟩
  · refine ⟨fun n hn => ?_, ?_, fun hnot => ?_, fun hlossless => ?_⟩
    · have := hroom n hn
      show (unread ++ [message]).length ≤ n
      rw [List.length_append, List.length_singleton]
      omega
    · rw [haccepted, hreceived]
      exact hall
    · rw [haccepted]
      exact hend hnot
    · rw [haccepted, hreceived, ← h.lossless hlossless, List.append_assoc]
  · refine ⟨fun m hm => ?_, ?_, fun _ => ?_, fun hlossless => absurd hlossless hlossy⟩
    · cases hn.symm.trans hm
      exact length_rtake _ _
    · rw [haccepted, hreceived]
      exact ((List.Sublist.refl _).append (rtake_suffix _ _).sublist).trans hall
    · rw [haccepted]
      exact (rtake_suffix _ _).trans (hend hnot)
  · refine ⟨fun m hm => ?_, ?_, fun hnot => absurd hdrops hnot, fun hlossless => absurd hlossless hlossy⟩
    · cases hn.symm.trans hm
      show ((unread ++ [message]).take n).length ≤ n
      rw [List.length_take]
      exact Nat.min_le_left _ _
    · rw [haccepted, hreceived]
      exact ((List.Sublist.refl _).append (List.take_sublist _ _)).trans hall

/-- An event that neither takes nor gives a message. -/
theorem Promises.same {event : Event} (h : Promises policy history r) (hunread : r'.unread = r.unread)
    (haccepted : accepted [event] = []) (hreceived : received [event] = []) : Promises policy (history ++ [event]) r' := by
  refine ⟨?_, ?_, ?_, ?_⟩
  · rw [hunread]
    exact h.bounded
  · rw [hunread, accepted_snoc, received_snoc, haccepted, hreceived, List.append_nil, List.append_nil]
    exact h.fifo
  · rw [hunread, accepted_snoc, haccepted, List.append_nil]
    exact h.newest
  · rw [hunread, accepted_snoc, received_snoc, haccepted, hreceived, List.append_nil, List.append_nil]
    exact h.lossless

theorem Promises.read {message : Message} {unread : List Message} {closed : Bool}
    (h : Promises policy history ⟨message :: unread, closed⟩) :
    Promises policy (history ++ [.read (.ok message)]) ⟨unread, closed⟩ := by
  have haccepted : accepted (history ++ [.read (.ok message)]) = accepted history := by
    rw [accepted_snoc]
    exact List.append_nil _
  have hreceived : received (history ++ [.read (.ok message)]) ++ unread = received history ++ message :: unread := by
    rw [received_snoc]
    exact List.append_assoc _ _ _
  refine ⟨fun n hn => ?_, ?_, fun hnot => ?_, fun hlossless => ?_⟩
  · have := h.bounded n hn
    exact Nat.le_of_succ_le this
  · rw [haccepted, hreceived]
    exact h.fifo
  · rw [haccepted]
    exact (List.suffix_cons _ _).trans (h.newest hnot)
  · rw [haccepted, hreceived]
    exact h.lossless hlossless

theorem promises_of_follows {event : Event} (h : Promises policy history r) (hstep : Follows policy r event r') :
    Promises policy (history ++ [event]) r' := by
  cases hstep with
  | keeps hverdict hanswer => exact h.keeps hverdict hanswer
  | refuses _ => exact h.same rfl rfl rfl
  | tooLate => exact h.same rfl rfl rfl
  | read => exact h.read
  | empty => exact h.same rfl rfl rfl
  | timedOut => exact h.same rfl rfl rfl
  | close => exact h.same rfl rfl rfl

theorem promises_of_replays (h : Replays policy history r) : Promises policy history r := by
  induction h with
  | nil => exact ⟨fun n _ => Nat.zero_le n, List.Sublist.refl _, fun _ => List.suffix_rfl, fun _ => rfl⟩
  | snoc _ hstep ih => exact promises_of_follows ih hstep

/-! ## The code's push against the policy -/

theorem rtake_snoc_room {α : Type} {l : List α} {n : Nat} (x : α) (h : l.length < n) : (l ++ [x]).rtake n = l ++ [x] := by
  rw [List.rtake, List.length_append, List.length_singleton, Nat.sub_eq_zero_of_le h, List.drop_zero]

theorem rtake_snoc_full {α : Type} {l : List α} {n : Nat} (x : α) (h : l.length = n) (hn : 0 < n) :
    (l ++ [x]).rtake n = l.tail ++ [x] := by
  have hone : (l ++ [x]).length - n = 1 := by
    rw [List.length_append, List.length_singleton]
    omega
  rw [List.rtake, hone, List.drop_one, List.tail_append_of_ne_nil (List.ne_nil_of_length_pos (h ▸ hn))]

theorem take_snoc_full {α : Type} {l : List α} {n : Nat} (x : α) (h : l.length = n) : (l ++ [x]).take n = l := by
  rw [← h, List.take_left']
  rfl

theorem queueDepth_pos (h : policy.validate.isOk = true) : 0 < policy.queueDepth := by
  unfold MessagePolicy.validate at h
  split at h
  · cases h
  · exact Nat.pos_of_ne_zero ‹_›

/-- A full queue that blocks. -/
theorem waits_iff {unread : List Message} {message : Message} :
    verdict policy unread message = .waits ↔
      policy.freshness = .queued ∧ policy.retention = .keepLast ∧ policy.overflow = .block ∧
        policy.queueDepth ≤ unread.length := by
  unfold verdict
  cases policy.freshness <;> cases policy.retention <;> cases policy.overflow <;> simp
  all_goals split <;> simp

/-- The answer and the messages after an attempt, by the verdict. -/
def answered (mailbox : Mailbox) (throws : Bool) : Verdict → Option (Status × Mailbox)
  | .keeps unread => some (mailbox.notify throws, { mailbox with messages := unread })
  | .refuses => some (queueFull, mailbox)
  | .waits => none

theorem push_closed {mailbox : Mailbox} (hclosed : mailbox.closed = true) (message : Message) (throws : Bool) :
    mailbox.push message throws = some (Mailbox.mailboxClosed, mailbox) := by
  rw [Mailbox.push, if_pos hclosed]

theorem push_verdict {mailbox : Mailbox} (hopen : mailbox.closed = false) (hvalid : mailbox.policy.validate.isOk = true)
    (hbound : ∀ n, bound mailbox.policy = some n → mailbox.messages.length ≤ n) (message : Message) (throws : Bool) :
    mailbox.push message throws = answered mailbox throws (verdict mailbox.policy mailbox.messages message) := by
  have hpos := queueDepth_pos hvalid
  have hnot : ¬ mailbox.closed = true := by simp [hopen]
  unfold bound at hbound
  unfold Mailbox.push verdict
  rw [if_neg hnot]
  cases hf : mailbox.policy.freshness with
  | latest =>
    have hlast : (mailbox.messages ++ [message]).rtake 1 = [message] := by
      rw [List.rtake_eq_reverse_take_reverse]
      simp
    simp [answered, hlast]
  | queued =>
    cases hr : mailbox.policy.retention with
    | keepAll => simp [Mailbox.pushQueued, usesUnboundedQueue, hf, hr, answered, Status.isOk, Status.ok, Mailbox.notify]
    | keepLast =>
      have hle : mailbox.messages.length ≤ mailbox.policy.queueDepth := hbound _ (by rw [hf, hr])
      have hcapacity : queueCapacity mailbox.policy = mailbox.policy.queueDepth := by simp [queueCapacity, hf]
      have hunbounded : usesUnboundedQueue mailbox.policy = false := by simp [usesUnboundedQueue, hf, hr]
      by_cases hroom : mailbox.messages.length < mailbox.policy.queueDepth
      · have htake : (mailbox.messages ++ [message]).take mailbox.policy.queueDepth = mailbox.messages ++ [message] := by
          rw [List.take_of_length_le]
          rw [List.length_append, List.length_singleton]
          exact hroom
        cases ho : mailbox.policy.overflow <;>
          simp [Mailbox.pushQueued, hunbounded, hcapacity, hroom, answered, Status.isOk, Status.ok, Mailbox.notify,
            rtake_snoc_room message hroom, htake]
      · have hfull : mailbox.messages.length = mailbox.policy.queueDepth := by omega
        cases ho : mailbox.policy.overflow <;>
          simp [Mailbox.pushQueued, hunbounded, hcapacity, hroom, ho, answered, Status.isOk, Status.ok, Status.error,
            queueFull, Mailbox.notify, rtake_snoc_full message hfull hpos, take_snoc_full message hfull]

/-! ## Every run -/

variable {s : State}

structure Inv (policy : MessagePolicy) (s : State) : Prop where
  same : s.mailbox.policy = policy
  replays : Replays policy s.history ⟨s.mailbox.messages, s.mailbox.closed⟩
  /-- No wake-up is lost. -/
  asleep : ∀ t message, s.pushers t = .sleeping message →
    verdict policy s.mailbox.messages message = .waits ∧ (s.mailbox.closed = true → 0 < s.closing)

theorem notify_ok_or_failed (mailbox : Mailbox) (throws : Bool) :
    mailbox.notify throws = .ok ∨ mailbox.notify throws = callbackFailed := by
  unfold Mailbox.notify
  split
  · exact .inr rfl
  · exact .inl rfl

theorem awake_notifySpace {s : State} (t : Nat) (message : Message) : s.notifySpace.pushers t ≠ .sleeping message := by
  intro h
  unfold State.notifySpace PushPc.wake at h
  dsimp only at h
  split at h
  · cases h
  · rename_i hnot
    exact hnot _ h

theorem Inv.push (h : Inv policy s) (hvalid : policy.validate.isOk = true) (message : Message) (throws : Bool) :
    s.mailbox.closed = false → s.mailbox.push message throws =
      answered s.mailbox throws (verdict policy s.mailbox.messages message) := by
  intro hopen
  have hpromises := promises_of_replays h.replays
  have := push_verdict hopen (by rw [h.same]; exact hvalid) (by rw [h.same]; exact hpromises.bounded) message throws
  rw [h.same] at this
  exact this

/-- Going anywhere but to sleep. -/
theorem Inv.asleep_goto (h : Inv policy s) {t : Nat} {pc : PushPc} (hpc : ∀ message, pc ≠ .sleeping message) {u : Nat}
    {message : Message} (hu : (s.goto t pc).pushers u = .sleeping message) :
    verdict policy s.mailbox.messages message = .waits ∧ (s.mailbox.closed = true → 0 < s.closing) := by
  unfold State.goto at hu
  by_cases heq : u = t
  · rw [heq] at hu
    exact absurd ((Function.update_self t pc s.pushers).symm.trans hu) (hpc message)
  · exact h.asleep u message ((Function.update_of_ne heq pc s.pushers).symm.trans hu)

theorem Inv.attempt (h : Inv policy s) (hvalid : policy.validate.isOk = true) (t : Nat) (message : Message)
    (throws : Bool) : Inv policy (s.attempt t message throws) := by
  have hreplays := h.replays
  cases hclosed : s.mailbox.closed with
  | true =>
    have hstate : s.attempt t message throws = (s.goto t .idle).note (.pushed message Mailbox.mailboxClosed) := by
      rw [State.attempt, push_closed hclosed]
      rfl
    rw [hstate]
    refine ⟨h.same, ?_, fun u message' hu => h.asleep_goto (fun _ => PushPc.noConfusion) hu⟩
    show Replays policy (s.history ++ [_]) ⟨s.mailbox.messages, s.mailbox.closed⟩
    rw [hclosed] at hreplays ⊢
    exact .snoc hreplays .tooLate
  | false =>
    have hpush := h.push hvalid message throws hclosed
    rw [hclosed] at hreplays
    cases hverdict : verdict policy s.mailbox.messages message with
    | keeps after =>
      have hstate : s.attempt t message throws =
          { (s.goto t .idle).note (.pushed message (s.mailbox.notify throws)) with
            mailbox := { s.mailbox with messages := after } } := by
        rw [State.attempt, hpush, hverdict]
        rfl
      rw [hstate]
      refine ⟨h.same, ?_, fun u message' hu => ?_⟩
      · show Replays policy (s.history ++ [_]) ⟨after, s.mailbox.closed⟩
        rw [hclosed]
        exact .snoc hreplays (.keeps hverdict (notify_ok_or_failed _ _))
      · -- whoever slept found the queue full, and so would this push have
        have hwaits := (h.asleep_goto (fun _ => PushPc.noConfusion) hu).1
        rw [waits_iff.mpr (waits_iff.mp hwaits)] at hverdict
        cases hverdict
    | refuses =>
      have hstate : s.attempt t message throws = (s.goto t .idle).note (.pushed message queueFull) := by
        rw [State.attempt, hpush, hverdict]
        rfl
      rw [hstate]
      refine ⟨h.same, ?_, fun u message' hu => h.asleep_goto (fun _ => PushPc.noConfusion) hu⟩
      show Replays policy (s.history ++ [_]) ⟨s.mailbox.messages, s.mailbox.closed⟩
      rw [hclosed]
      exact .snoc hreplays (.refuses hverdict)
    | waits =>
      have hstate : s.attempt t message throws = s.goto t (.sleeping message) := by
        rw [State.attempt, hpush, hverdict]
        rfl
      rw [hstate]
      refine ⟨h.same, h.replays, fun u message' hu => ?_⟩
      unfold State.goto at hu
      by_cases heq : u = t
      · rw [heq] at hu
        cases (Function.update_self t (PushPc.sleeping message) s.pushers).symm.trans hu
        refine ⟨hverdict, fun h' => ?_⟩
        exact Bool.noConfusion (hclosed.symm.trans h')
      · exact h.asleep u message' ((Function.update_of_ne heq _ s.pushers).symm.trans hu)

/-- A read that is not waiting: the message at the front, or none at all. -/
theorem Inv.read (h : Inv policy s) {s' : State} {options : ReadOptions} {timedOut : Bool}
    (hstep : step s (.read options timedOut) = some s') : Inv policy s' := by
  have hreplays := h.replays
  unfold step at hstep
  dsimp only at hstep
  split at hstep
  · rename_i hwait
    split at hstep
    · cases hstep
      refine ⟨h.same, ?_, h.asleep⟩
      have hempty : s.mailbox.messages = [] := by simp_all
      have hopen : s.mailbox.closed = false := by simp_all
      show Replays policy (s.history ++ [_]) ⟨s.mailbox.messages, s.mailbox.closed⟩
      rw [hempty, hopen] at hreplays ⊢
      exact .snoc hreplays .timedOut
    · cases hstep
  · cases hmessages : s.mailbox.messages with
    | nil =>
      rw [hmessages] at hstep hreplays
      cases hstep
      have hread : s.mailbox.read.1 = .error nothingAvailable := by
        rw [Mailbox.read, hmessages]
        rfl
      refine ⟨h.same, ?_, h.asleep⟩
      show Replays policy (s.history ++ [.read s.mailbox.read.1]) ⟨s.mailbox.messages, s.mailbox.closed⟩
      rw [hread, hmessages]
      exact .snoc hreplays .empty
    | cons message rest =>
      rw [hmessages] at hstep hreplays
      cases hstep
      have hread : s.mailbox.read = (.ok message, { s.mailbox with messages := rest }) := by
        rw [Mailbox.read, hmessages]
      refine ⟨?_, ?_, fun t message' ht => absurd ht (awake_notifySpace t message')⟩
      · show s.mailbox.read.2.policy = policy
        rw [hread]
        exact h.same
      · show Replays policy (s.history ++ [.read s.mailbox.read.1]) ⟨s.mailbox.read.2.messages, s.mailbox.read.2.closed⟩
        rw [hread]
        exact .snoc hreplays .read

theorem Inv.step (h : Inv policy s) (hvalid : policy.validate.isOk = true) {move : Move} {s' : State}
    (hstep : step s move = some s') : Inv policy s' := by
  cases move with
  | push t message throws =>
    unfold Policy.step at hstep
    dsimp only at hstep
    split at hstep
    · cases hstep
      exact h.attempt hvalid t message throws
    · cases hstep
  | wake t =>
    unfold Policy.step at hstep
    dsimp only at hstep
    split at hstep
    · cases hstep
      exact ⟨h.same, h.replays, fun u message hu => h.asleep_goto (fun _ => PushPc.noConfusion) hu⟩
    · cases hstep
  | pushAgain t throws =>
    unfold Policy.step at hstep
    dsimp only at hstep
    split at hstep
    · cases hstep
      exact h.attempt hvalid t _ throws
    · cases hstep
  | read options timedOut => exact h.read hstep
  | close =>
    cases hstep
    refine ⟨h.same, .snoc h.replays .close, fun t message ht => ?_⟩
    exact ⟨(h.asleep t message ht).1, fun _ => Nat.succ_pos _⟩
  | closeNotifies =>
    unfold Policy.step at hstep
    dsimp only at hstep
    split at hstep
    · cases hstep
    · cases hstep
      exact ⟨h.same, h.replays, fun t message ht => absurd ht (awake_notifySpace t message)⟩
  | setDataAvailableCallback hasCallback =>
    cases hstep
    exact ⟨h.same, h.replays, h.asleep⟩

theorem inv_of_reach (hvalid : policy.validate.isOk = true) (h : Reach step anyMove (· = initial policy) s) :
    Inv policy s := by
  refine h.invariant (fun s hs => ?_) fun s move s' hinv _ hstep => hinv.step hvalid hstep
  subst hs
  exact ⟨rfl, .nil, fun t message ht => PushPc.noConfusion ht⟩

end PuppetMaster.InMemory.Policy
