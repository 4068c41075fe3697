/-
  PuppetMaster.InMemory.Delivery — writers and readers of one in-memory topic
  (`TopicChannel`, `InMemoryReader`), one locked section at a time.

  `write` is the section under the channel mutex: it takes the next sequence and
  snapshots the mailboxes that are still referenced. Then the writer pushes its message
  into each mailbox of the snapshot, each `push` under that mailbox's mutex only. A
  snapshot keeps its mailboxes alive (`refs`), so a reader destroyed meanwhile leaves a
  closed mailbox behind. Closing the channel closes the mailboxes one by one.

  History, for each mailbox: `due` are the sequences of the publishes whose snapshot it
  was in, `offered` those whose push has reached it while it was open, `received` the
  messages its reader has taken.

  The sequence is assigned under one lock and delivered under another, so two writers
  can overtake each other between the two. `inOrder` is the condition that keeps this
  out: a push into a mailbox finds no other publish with a lower sequence still on its
  way to it. `notWrapped`: no publish is made once the 64-bit counter has wrapped. Under
  both (`Inv`), what a mailbox was offered, received and holds is in sequence order, and a
  `kLatest` mailbox holds, or its reader has taken, the newest message it was offered.
-/

import Mathlib.Algebra.Group.Nat.Defs
import Mathlib.Data.List.Nodup
import Mathlib.Logic.Function.Basic
import PuppetMaster.Lib.Run
import PuppetMaster.InMemory.Mailbox

namespace PuppetMaster.InMemory

open PuppetMaster.Core PuppetMaster.Lib

/-! ## The machine -/

inductive TopicLifetime where
  | shared
  | readerOwned
  deriving DecidableEq, Repr

structure Channel where
  topic : Bytes
  lifetime : TopicLifetime
  readers : List Nat
  nextSequence : Nat
  hadReader : Bool
  closed : Bool
  deriving DecidableEq, Repr

/-- A writer thread: between calls, or on its way through its snapshot. -/
inductive Pc where
  | idle (result : Status)
  | pushing (message : Message) (snapshot remaining : List Nat) (result : Status)
  deriving DecidableEq

structure St where
  channel : Channel
  mailboxes : Nat → Option Mailbox
  /-- The InMemoryReader that owns the mailbox exists. -/
  owned : Nat → Bool
  refs : Nat → Nat
  closing : List Nat
  threads : Nat → Pc
  due : Nat → List Nat
  offered : Nat → List Nat
  received : Nat → List Message

inductive Act where
  | addReader (m : Nat) (policy : MessagePolicy)
  | setCallback (m : Nat) (hasCallback : Bool)
  | write (τ : Nat) (payload : Bytes) (sourceTimestamp now received : Int)
  | push (τ : Nat) (throws : Bool)
  | read (m : Nat)
  | destroyReader (m : Nat)
  | closeChannel
  | closeNext
  deriving DecidableEq

/-- `weak_ptr::expired`. -/
def expired (s : St) (m : Nat) : Bool := decide (s.refs m = 0)

def gone (s : St) : Bool :=
  decide (s.channel.lifetime = .readerOwned) && s.channel.hadReader && s.channel.readers.all (expired s)

def channelClosed (topic : Bytes) : Status :=
  .error .failedPrecondition (text "in-memory topic channel is closed: " ++ topic)

def topicGone (topic : Bytes) : Status :=
  .error .notFound (text "in-memory topic " ++ topic ++ text " was closed by its reader")

/-- The section of `Publish` under the channel mutex. -/
def publish (s : St) (τ : Nat) (payload : Bytes) (sourceTimestamp now received : Int) : St :=
  if s.channel.closed then { s with threads := Function.update s.threads τ (.idle (channelClosed s.channel.topic)) }
  else if gone s then { s with threads := Function.update s.threads τ (.idle (topicGone s.channel.topic)) }
  else
    let sequence := s.channel.nextSequence
    let message : Message := ⟨payload, ⟨sequence, if sourceTimestamp = 0 then now else sourceTimestamp, received⟩⟩
    let readers := s.channel.readers.filter fun m => !expired s m
    { s with
      channel := { s.channel with readers := readers, nextSequence := (sequence + 1) % 2 ^ 64 }
      refs := fun m => if m ∈ readers then s.refs m + 1 else s.refs m
      threads := Function.update s.threads τ (.pushing message readers readers .ok)
      due := fun m => if m ∈ readers then s.due m ++ [sequence] else s.due m }

/-- The first status that is not Ok. -/
def firstError (result status : Status) : Status := if result.isOk && !status.isOk then status else result

def push (s : St) (τ : Nat) (throws : Bool) : Option St :=
  match s.threads τ with
  | .idle _ => none
  | .pushing _ snapshot [] result =>
    some { s with
      threads := Function.update s.threads τ (.idle result)
      refs := fun m => if m ∈ snapshot then s.refs m - 1 else s.refs m }
  | .pushing message snapshot (m :: rest) result =>
    (s.mailboxes m).bind fun mailbox =>
      (mailbox.push message throws).map fun pushed =>
        { s with
          mailboxes := Function.update s.mailboxes m (some pushed.2)
          threads := Function.update s.threads τ (.pushing message snapshot rest (firstError result pushed.1))
          offered :=
            if mailbox.closed then s.offered
            else Function.update s.offered m (s.offered m ++ [message.metadata.sequence]) }

def setMailbox (s : St) (m : Nat) (f : Mailbox → Mailbox) : St :=
  { s with mailboxes := Function.update s.mailboxes m ((s.mailboxes m).map f) }

def step (s : St) : Act → Option St
  | .addReader m policy =>
    if s.mailboxes m = none ∧ policy.validate.isOk = true ∧ s.channel.closed = false then
      some { s with
        mailboxes := Function.update s.mailboxes m (some (.fresh policy))
        owned := Function.update s.owned m true
        refs := Function.update s.refs m 1
        channel := { s.channel with readers := s.channel.readers ++ [m], hadReader := true } }
    else none
  | .setCallback m hasCallback =>
    if s.owned m then some (setMailbox s m fun mailbox => { mailbox with hasCallback := hasCallback }) else none
  | .write τ payload sourceTimestamp now received =>
    match s.threads τ with
    | .idle _ => some (publish s τ payload sourceTimestamp now received)
    | .pushing _ _ _ _ => none
  | .push τ throws => push s τ throws
  | .read m =>
    if s.owned m then
      (s.mailboxes m).map fun mailbox =>
        match mailbox.read with
        | (.ok message, mailbox') =>
          { s with
            mailboxes := Function.update s.mailboxes m (some mailbox')
            received := Function.update s.received m (s.received m ++ [message]) }
        | (.error _, _) => s
    else none
  | .destroyReader m =>
    if s.owned m then
      some { setMailbox s m Mailbox.close with
        owned := Function.update s.owned m false
        refs := Function.update s.refs m (s.refs m - 1) }
    else none
  | .closeChannel =>
    some { s with
      channel := { s.channel with closed := true, readers := [] }
      closing := s.closing ++ s.channel.readers.filter fun m => !expired s m }
  | .closeNext =>
    match s.closing with
    | [] => none
    | m :: rest => some { setMailbox s m Mailbox.close with closing := rest }

def init (topic : Bytes) (lifetime : TopicLifetime) : St where
  channel := ⟨topic, lifetime, [], 1, false, false⟩
  mailboxes _ := none
  owned _ := false
  refs _ := 0
  closing := []
  threads _ := .idle .ok
  due _ := []
  offered _ := []
  received _ := []

/-! ## The conditions -/

/-- The sequence and the mailboxes a publish is still on its way to. -/
def inFlight : Pc → Option (Nat × List Nat)
  | .idle _ => none
  | .pushing message _ remaining _ => some (message.metadata.sequence, remaining)

/-- A push finds no publish with a lower sequence still on its way to the mailbox. -/
def inOrder (s : St) : Act → Prop
  | .push τ _ => ∀ q m rest, inFlight (s.threads τ) = some (q, m :: rest) →
      ∀ σ q' remaining, σ ≠ τ → inFlight (s.threads σ) = some (q', remaining) → m ∈ remaining → q < q'
  | _ => True

/-- The 64-bit counter has not wrapped. -/
def notWrapped (s : St) : Act → Prop
  | .write _ _ _ _ _ => s.channel.nextSequence ≠ 0
  | _ => True

/-! ## The invariant -/

/-- Every sequence assigned so far is below it. -/
def bound (s : St) : Nat := if s.channel.nextSequence = 0 then 2 ^ 64 else s.channel.nextSequence

/-- The sequences a reader has taken or can take. -/
def sequences (received messages : List Message) : List Nat := (received ++ messages).map (·.metadata.sequence)

structure MailboxOk (mailbox : Mailbox) (received : List Message) (offered : List Nat) : Prop where
  sorted : (sequences received mailbox.messages).Pairwise (· < ·)
  subset : ∀ q ∈ sequences received mailbox.messages, q ∈ offered
  newest : mailbox.policy.freshness = .latest →
    (sequences received mailbox.messages).getLast? = offered.getLast?

structure Inv (s : St) : Prop where
  small : s.channel.nextSequence < 2 ^ 64
  readers : s.channel.readers.Nodup
  known : ∀ m ∈ s.channel.readers, s.mailboxes m ≠ none
  unborn : ∀ m, s.mailboxes m = none → s.offered m = [] ∧ s.received m = []
  assigned : ∀ m, ∀ q ∈ s.offered m, q < bound s
  offered : ∀ m, (s.offered m).Pairwise (· < ·)
  flight : ∀ τ q remaining, inFlight (s.threads τ) = some (q, remaining) → q < bound s ∧ remaining.Nodup
  distinct : ∀ τ σ q rτ rσ, inFlight (s.threads τ) = some (q, rτ) → inFlight (s.threads σ) = some (q, rσ) → τ = σ
  /-- What is still on its way to a mailbox is newer than what it was offered. -/
  ahead : ∀ τ q remaining m, inFlight (s.threads τ) = some (q, remaining) → m ∈ remaining → ∀ q' ∈ s.offered m, q' < q
  mailboxes : ∀ m mailbox, s.mailboxes m = some mailbox → MailboxOk mailbox (s.received m) (s.offered m)

theorem init_inv (topic : Bytes) (lifetime : TopicLifetime) : Inv (init topic lifetime) where
  small := by simp [init]
  readers := List.nodup_nil
  known m h := by cases h
  unborn m _ := ⟨rfl, rfl⟩
  assigned m q h := by cases h
  offered m := List.Pairwise.nil
  flight τ q remaining h := by cases h
  distinct τ σ q rτ rσ h := by cases h
  ahead τ q remaining m h := by cases h
  mailboxes m mailbox h := by cases h

/-! ## Mailboxes -/

/-- Pushing a message newer than all that was offered. -/
theorem MailboxOk.push {mailbox mailbox' : Mailbox} {received : List Message} {offered : List Nat} {message : Message}
    {throws : Bool} {status : Status} (h : MailboxOk mailbox received offered) (hopen : mailbox.closed = false)
    (hnew : ∀ q ∈ offered, q < message.metadata.sequence) (hp : mailbox.push message throws = some (status, mailbox')) :
    MailboxOk mailbox' received (offered ++ [message.metadata.sequence]) := by
  obtain ⟨hpol, -, ⟨hlatest, hm⟩ | ⟨kept, hkept, hm⟩⟩ := Mailbox.push_messages hp
  · refine ⟨by rw [hm]; exact h.sorted, fun q hq => ?_, fun hl => ?_⟩
    · rw [hm] at hq
      exact List.mem_append_left _ (h.subset q hq)
    · rw [hpol] at hl
      rw [hlatest hl] at hopen
      cases hopen
  · have hsplit : sequences received mailbox'.messages = sequences received kept ++ [message.metadata.sequence] := by
      simp [sequences, hm]
    have hsub : (sequences received kept).Sublist (sequences received mailbox.messages) :=
      ((List.Sublist.refl received).append hkept.sublist).map _
    refine ⟨?_, fun q hq => ?_, fun _ => ?_⟩
    · rw [hsplit, List.pairwise_append]
      refine ⟨h.sorted.sublist hsub, List.pairwise_singleton _ _, fun q hq q' hq' => ?_⟩
      rw [List.mem_singleton.mp hq']
      exact hnew q (h.subset q (hsub.subset hq))
    · rw [hsplit] at hq
      rcases List.mem_append.mp hq with hq | hq
      · exact List.mem_append_left _ (h.subset q (hsub.subset hq))
      · exact List.mem_append_right _ hq
    · rw [hsplit]
      simp

/-- Taking a message moves it from the mailbox to the reader. -/
theorem MailboxOk.read {mailbox mailbox' : Mailbox} {received : List Message} {offered : List Nat} {message : Message}
    (h : MailboxOk mailbox received offered) (hr : mailbox.read = (.ok message, mailbox')) :
    MailboxOk mailbox' (received ++ [message]) offered := by
  have hm : mailbox.messages = message :: mailbox'.messages ∧ mailbox'.policy = mailbox.policy := by
    unfold Mailbox.read at hr
    split at hr
    · cases hr
    · cases hr; exact ⟨‹_›, rfl⟩
  have hseq : sequences (received ++ [message]) mailbox'.messages = sequences received mailbox.messages := by
    simp [sequences, hm.1]
  refine ⟨by rw [hseq]; exact h.sorted, by rw [hseq]; exact h.subset, ?_⟩
  rw [hseq, hm.2]
  exact h.newest

theorem MailboxOk.congr {mailbox mailbox' : Mailbox} {received : List Message} {offered : List Nat}
    (h : MailboxOk mailbox received offered) (hm : mailbox'.messages = mailbox.messages)
    (hp : mailbox'.policy = mailbox.policy) : MailboxOk mailbox' received offered :=
  ⟨by rw [hm]; exact h.sorted, by rw [hm]; exact h.subset, by rw [hm, hp]; exact h.newest⟩

/-! ## Every move keeps the invariant -/

/-- Changes that leave messages, sequences and threads alone. -/
theorem Inv.setMailbox {s : St} (hi : Inv s) {m : Nat} {f : Mailbox → Mailbox} (hm : ∀ b, (f b).messages = b.messages)
    (hp : ∀ b, (f b).policy = b.policy) : Inv (setMailbox s m f) := by
  have hnone : ∀ k, (InMemory.setMailbox s m f).mailboxes k = none ↔ s.mailboxes k = none := by
    intro k
    by_cases e : k = m
    · subst e; simp [InMemory.setMailbox]
    · simp [InMemory.setMailbox, e]
  refine ⟨hi.small, hi.readers, fun k hk h => hi.known k hk ((hnone k).mp h), fun k h => hi.unborn k ((hnone k).mp h),
    hi.assigned, hi.offered, hi.flight, hi.distinct, hi.ahead, fun k b hb => ?_⟩
  by_cases e : k = m
  · subst e
    simp only [InMemory.setMailbox, Function.update_self, Option.map_eq_some_iff] at hb
    obtain ⟨b', hb', rfl⟩ := hb
    exact (hi.mailboxes k b' hb').congr (hm b') (hp b')
  · exact hi.mailboxes k b (by simpa [InMemory.setMailbox, e] using hb)

theorem Inv.idle {s : St} (hi : Inv s) (τ : Nat) (result : Status) :
    Inv { s with threads := Function.update s.threads τ (.idle result) } := by
  have hold : ∀ {σ : Nat} {p : Nat × List Nat}, inFlight (Function.update s.threads τ (.idle result) σ) = some p →
      inFlight (s.threads σ) = some p := by
    intro σ p h
    by_cases e : σ = τ
    · subst e; rw [Function.update_self] at h; cases h
    · rwa [Function.update_of_ne e] at h
  exact ⟨hi.small, hi.readers, hi.known, hi.unborn, hi.assigned, hi.offered, fun σ q r h => hi.flight σ q r (hold h),
    fun σ ρ q r r' h h' => hi.distinct σ ρ q r r' (hold h) (hold h'), fun σ q r m h => hi.ahead σ q r m (hold h),
    hi.mailboxes⟩

/-- A publish takes a sequence above all that were assigned. -/
theorem publish_inv {s : St} (hi : Inv s) (hw : s.channel.nextSequence ≠ 0) (τ : Nat) (payload : Bytes)
    (ts now rec : Int) : Inv (publish s τ payload ts now rec) := by
  unfold publish
  split
  · exact hi.idle τ _
  · split
    · exact hi.idle τ _
    · have hb : bound s = s.channel.nextSequence := if_neg hw
      have hsmall := hi.small
      have hb' : ∀ (readers : List Nat) (t : St),
          t.channel = { s.channel with readers := readers, nextSequence := (s.channel.nextSequence + 1) % 2 ^ 64 } →
          bound t = s.channel.nextSequence + 1 := by
        intro readers t ht
        simp only [bound, ht]
        split <;> omega
      refine ⟨Nat.mod_lt _ (by decide), hi.readers.filter _, fun m hm => hi.known m (List.mem_filter.mp hm).1,
        hi.unborn, fun m q hq => ?_, hi.offered, fun σ q r h => ?_, fun σ ρ q rσ rρ h h' => ?_, fun σ q r m h hm q' hq' => ?_,
        hi.mailboxes⟩
      · have := hi.assigned m q hq
        rw [hb' _ _ rfl]
        omega
      · rw [hb' _ _ rfl]
        simp only at h
        by_cases e : σ = τ
        · subst e
          rw [Function.update_self] at h
          cases h
          exact ⟨Nat.lt_succ_self _, hi.readers.filter _⟩
        · rw [Function.update_of_ne e] at h
          obtain ⟨h1, h2⟩ := hi.flight σ q r h
          exact ⟨by omega, h2⟩
      · simp only at h h'
        by_cases e : σ = τ <;> by_cases e' : ρ = τ
        · rw [e, e']
        · subst e
          rw [Function.update_self] at h
          rw [Function.update_of_ne e'] at h'
          cases h
          have : s.channel.nextSequence < bound s := (hi.flight ρ _ _ h').1
          omega
        · subst e'
          rw [Function.update_self] at h'
          rw [Function.update_of_ne e] at h
          cases h'
          have : s.channel.nextSequence < bound s := (hi.flight σ _ _ h).1
          omega
        · rw [Function.update_of_ne e] at h
          rw [Function.update_of_ne e'] at h'
          exact hi.distinct σ ρ q rσ rρ h h'
      · simp only at h
        by_cases e : σ = τ
        · subst e
          rw [Function.update_self] at h
          cases h
          show q' < s.channel.nextSequence
          have := hi.assigned m q' hq'
          omega
        · rw [Function.update_of_ne e] at h
          exact hi.ahead σ q r m h hm q' hq'

/-- A thread is done with a mailbox of its snapshot. -/
theorem Inv.advance {s : St} (hi : Inv s) {τ m : Nat} {message : Message} {snapshot rest : List Nat} {result : Status}
    (hpc : s.threads τ = .pushing message snapshot (m :: rest) result) (result' : Status) :
    Inv { s with threads := Function.update s.threads τ (.pushing message snapshot rest result') } := by
  have hflight : inFlight (s.threads τ) = some (message.metadata.sequence, m :: rest) := by rw [hpc]; rfl
  have hold : ∀ {σ q r}, inFlight (Function.update s.threads τ (.pushing message snapshot rest result') σ) = some (q, r) →
      ∃ r', inFlight (s.threads σ) = some (q, r') ∧ r.Sublist r' := by
    intro σ q r hσ
    by_cases e : σ = τ
    · subst e
      rw [Function.update_self] at hσ
      cases hσ
      exact ⟨m :: rest, hflight, List.sublist_cons_self ..⟩
    · rw [Function.update_of_ne e] at hσ
      exact ⟨r, hσ, List.Sublist.refl r⟩
  refine ⟨hi.small, hi.readers, hi.known, hi.unborn, hi.assigned, hi.offered, ?_, ?_, ?_, hi.mailboxes⟩
  · intro σ q r hσ
    obtain ⟨r', hr', hsub⟩ := hold hσ
    exact ⟨(hi.flight σ q r' hr').1, (hi.flight σ q r' hr').2.sublist hsub⟩
  · intro σ ρ q rσ rρ hσ hρ
    obtain ⟨_, hσ', -⟩ := hold hσ
    obtain ⟨_, hρ', -⟩ := hold hρ
    exact hi.distinct σ ρ q _ _ hσ' hρ'
  · intro σ q r k hσ hk
    obtain ⟨r', hr', hsub⟩ := hold hσ
    exact hi.ahead σ q r' k hr' (hsub.subset hk)

/-- An open mailbox is offered a message that is newer than all it was offered, and older
    than all that is on its way to it. -/
theorem Inv.offer {s : St} (hi : Inv s) {m : Nat} {mailbox mailbox' : Mailbox} {message : Message} {throws : Bool}
    {status : Status} (hmailbox : s.mailboxes m = some mailbox) (hopen : mailbox.closed = false)
    (hpush : mailbox.push message throws = some (status, mailbox')) (hbound : message.metadata.sequence < bound s)
    (hnew : ∀ q ∈ s.offered m, q < message.metadata.sequence)
    (hahead : ∀ σ q r, inFlight (s.threads σ) = some (q, r) → m ∈ r → message.metadata.sequence < q) :
    Inv { s with
      mailboxes := Function.update s.mailboxes m (some mailbox')
      offered := Function.update s.offered m (s.offered m ++ [message.metadata.sequence]) } := by
  have hoffered : ∀ k q, q ∈ Function.update s.offered m (s.offered m ++ [message.metadata.sequence]) k →
      q ∈ s.offered k ∨ (k = m ∧ q = message.metadata.sequence) := by
    intro k q hq
    by_cases e : k = m
    · subst e
      rw [Function.update_self] at hq
      exact (List.mem_append.mp hq).imp_right fun hq => ⟨rfl, List.mem_singleton.mp hq⟩
    · rw [Function.update_of_ne e] at hq
      exact .inl hq
  have hnone : ∀ k, Function.update s.mailboxes m (some mailbox') k = none → s.mailboxes k = none ∧ k ≠ m := by
    intro k hk
    by_cases e : k = m
    · subst e; rw [Function.update_self] at hk; cases hk
    · rw [Function.update_of_ne e] at hk; exact ⟨hk, e⟩
  refine ⟨hi.small, hi.readers, fun k hk hn => hi.known k hk (hnone k hn).1, ?_, ?_, ?_, hi.flight, hi.distinct, ?_, ?_⟩
  · intro k hn
    obtain ⟨hn, hne⟩ := hnone k hn
    dsimp only
    rw [Function.update_of_ne hne]
    exact hi.unborn k hn
  · intro k q hq
    rcases hoffered k q hq with hq | ⟨-, rfl⟩
    · exact hi.assigned k q hq
    · exact hbound
  · intro k
    by_cases e : k = m
    · subst e
      dsimp only
      rw [Function.update_self, List.pairwise_append]
      refine ⟨hi.offered k, List.pairwise_singleton _ _, fun q hq q' hq' => ?_⟩
      rw [List.mem_singleton.mp hq']
      exact hnew q hq
    · dsimp only
      rw [Function.update_of_ne e]
      exact hi.offered k
  · intro σ q r k hσ hk q' hq'
    rcases hoffered k q' hq' with hq' | ⟨rfl, rfl⟩
    · exact hi.ahead σ q r k hσ hk q' hq'
    · exact hahead σ q r hσ hk
  · intro k b hb
    by_cases e : k = m
    · subst e
      simp only [Function.update_self, Option.some.injEq] at hb ⊢
      subst hb
      exact (hi.mailboxes k mailbox hmailbox).push hopen hnew hpush
    · simp only [Function.update_of_ne e] at hb ⊢
      exact hi.mailboxes k b hb

/-- A push in order: what is still on its way to the mailbox is newer. -/
theorem push_inv {s t : St} (hi : Inv s) {τ : Nat} {throws : Bool} (hord : inOrder s (.push τ throws))
    (h : push s τ throws = some t) : Inv t := by
  unfold push at h
  split at h
  · cases h
  · cases h
    have := hi.idle τ (by assumption)
    exact ⟨this.1, this.2, this.3, this.4, this.5, this.6, this.7, this.8, this.9, this.10⟩
  · rename_i message snapshot m rest result hpc
    obtain ⟨mailbox, hmailbox, h⟩ := Option.bind_eq_some_iff.mp h
    obtain ⟨⟨status, mailbox'⟩, hpush, rfl⟩ := Option.map_eq_some_iff.mp h
    have hflight : inFlight (s.threads τ) = some (message.metadata.sequence, m :: rest) := by rw [hpc]; rfl
    obtain ⟨hbound, hnodup⟩ := hi.flight τ _ _ hflight
    have hnew := hi.ahead τ _ _ m hflight (List.mem_cons_self ..)
    have hadvanced := hi.advance hpc (firstError result status)
    cases hc : mailbox.closed with
    | true =>
      -- refused: the mailbox is as it was
      simp only [Mailbox.push, hc, if_true, Option.some.injEq, Prod.mk.injEq] at hpush
      obtain ⟨-, rfl⟩ := hpush
      have hsame : Function.update s.mailboxes m (some mailbox) = s.mailboxes := by
        rw [← hmailbox, Function.update_eq_self]
      simp only [if_true, hsame]
      exact hadvanced
    | false =>
      simp only [Bool.false_eq_true, if_false]
      refine hadvanced.offer hmailbox hc hpush hbound hnew ?_
      intro σ q r hσ hm
      dsimp only at hσ
      by_cases e : σ = τ
      · subst e
        rw [Function.update_self] at hσ
        cases hσ
        exact absurd hm (List.nodup_cons.mp hnodup).1
      · rw [Function.update_of_ne e] at hσ
        exact hord _ _ _ hflight σ q r e hσ hm

theorem step_inv {s t : St} {a : Act} (hi : Inv s) (hok : inOrder s a ∧ notWrapped s a) (h : step s a = some t) :
    Inv t := by
  cases a with
  | addReader m policy =>
    simp only [step] at h
    split at h
    · rename_i hg
      cases h
      obtain ⟨h1, h2⟩ := hi.unborn m hg.1
      have hnot : m ∉ s.channel.readers := fun hm => hi.known m hm hg.1
      refine ⟨hi.small, ?_, fun k hk => ?_, fun k hk => ?_, hi.assigned, hi.offered, hi.flight, hi.distinct, hi.ahead,
        fun k b hb => ?_⟩
      · exact List.nodup_append.mpr ⟨hi.readers, List.nodup_singleton m, fun a ha b hb e => by
          rw [List.mem_singleton.mp hb] at e
          exact hnot (e ▸ ha)⟩
      · by_cases e : k = m
        · subst e; simp
        · simp only [Function.update_of_ne e]
          refine hi.known k ((List.mem_append.mp hk).resolve_right fun h => e (List.mem_singleton.mp h))
      · by_cases e : k = m
        · subst e; simp at hk
        · exact hi.unborn k (by simpa [e] using hk)
      · by_cases e : k = m
        · subst e
          simp only [Function.update_self, Option.some.injEq] at hb
          subst hb
          rw [h1, h2]
          exact ⟨List.Pairwise.nil, fun q hq => (by cases hq), fun _ => rfl⟩
        · exact hi.mailboxes k b (by simpa [e] using hb)
    · cases h
  | setCallback m hasCallback =>
    simp only [step] at h
    split at h
    · cases h
      exact hi.setMailbox (fun _ => rfl) fun _ => rfl
    · cases h
  | write τ payload ts now rec =>
    simp only [step] at h
    split at h
    · cases h
      exact publish_inv hi hok.2 τ payload ts now rec
    · cases h
  | push τ throws => exact push_inv hi hok.1 h
  | read m =>
    simp only [step] at h
    split at h
    · obtain ⟨mailbox, hmb, rfl⟩ := Option.map_eq_some_iff.mp h
      split
      · rename_i message mailbox' hr
        refine ⟨hi.small, hi.readers, fun k hk hn => ?_, fun k hn => ?_, hi.assigned, hi.offered, hi.flight, hi.distinct,
          hi.ahead, fun k b hb => ?_⟩
        · by_cases e : k = m
          · subst e; simp at hn
          · exact hi.known k hk (by simpa [e] using hn)
        · by_cases e : k = m
          · subst e; simp at hn
          · simp only [Function.update_of_ne e] at hn ⊢
            exact hi.unborn k hn
        · by_cases e : k = m
          · subst e
            simp only [Function.update_self, Option.some.injEq] at hb ⊢
            subst hb
            exact (hi.mailboxes k mailbox hmb).read hr
          · simp only [Function.update_of_ne e] at hb ⊢
            exact hi.mailboxes k b hb
      · exact hi
    · cases h
  | destroyReader m =>
    simp only [step] at h
    split at h
    · cases h
      have := hi.setMailbox (m := m) (f := Mailbox.close) (fun _ => rfl) fun _ => rfl
      exact ⟨this.1, this.2, this.3, this.4, this.5, this.6, this.7, this.8, this.9, this.10⟩
    · cases h
  | closeChannel =>
    simp only [step, Option.some.injEq] at h
    subst h
    exact ⟨hi.small, List.nodup_nil, fun k hk => (by cases hk), hi.unborn, hi.assigned, hi.offered, hi.flight, hi.distinct,
      hi.ahead, hi.mailboxes⟩
  | closeNext =>
    simp only [step] at h
    split at h
    · cases h
    · rename_i m rest _
      cases h
      have := hi.setMailbox (m := m) (f := Mailbox.close) (fun _ => rfl) fun _ => rfl
      exact ⟨this.1, this.2, this.3, this.4, this.5, this.6, this.7, this.8, this.9, this.10⟩

variable {topic : Bytes} {lifetime : TopicLifetime}

theorem inv {s : St} (h : Reach step (fun s a => inOrder s a ∧ notWrapped s a) (· = init topic lifetime) s) : Inv s :=
  h.invariant (fun _ hs => hs ▸ init_inv topic lifetime) fun _ _ _ hi hok hst => step_inv hi hok hst

/-- A sorted list ends with its greatest element. -/
theorem getLast_of_pairwise {l : List Nat} (h : l.Pairwise (· < ·)) {last : Nat} (hl : l.getLast? = some last) :
    ∀ q ∈ l, q ≤ last := by
  obtain ⟨init, rfl⟩ := List.getLast?_eq_some_iff.mp hl
  intro q hq
  rcases List.mem_append.mp hq with hq | hq
  · exact Nat.le_of_lt ((List.pairwise_append.mp h).2.2 q hq last (List.mem_singleton_self _))
  · exact Nat.le_of_eq (List.mem_singleton.mp hq)

/-- Each reader receives messages in strictly increasing sequence; and once a `kLatest`
    reader has been offered all messages due to it, the last message it has received or
    holds is the one with the highest sequence. -/
theorem readers_receive_in_sequence_order {s : St}
    (h : Reach step (fun s a => inOrder s a ∧ notWrapped s a) (· = init topic lifetime) s) {m : Nat} {mailbox : Mailbox}
    (hm : s.mailboxes m = some mailbox) :
    ((s.received m).map (·.metadata.sequence)).Pairwise (· < ·) ∧
    (mailbox.policy.freshness = .latest → s.due m ≠ [] → (∀ q ∈ s.due m, q ∈ s.offered m) →
      ∃ last, (s.received m ++ mailbox.messages).getLast? = some last ∧ ∀ q ∈ s.due m, q ≤ last.metadata.sequence) := by
  have hi := inv h
  have hok := hi.mailboxes m mailbox hm
  refine ⟨?_, fun hlatest hne hall => ?_⟩
  · have := hok.sorted
    rw [sequences, List.map_append, List.pairwise_append] at this
    exact this.1
  · have hlast := hok.newest hlatest
    rw [sequences, List.getLast?_map] at hlast
    obtain ⟨q0, hq0⟩ := List.exists_mem_of_ne_nil _ hne
    cases hl : (s.received m ++ mailbox.messages).getLast? with
    | none =>
      rw [hl, Option.map_none, eq_comm, List.getLast?_eq_none_iff] at hlast
      have := hall q0 hq0
      rw [hlast] at this
      cases this
    | some last =>
      rw [hl, Option.map_some] at hlast
      exact ⟨last, rfl, fun q hq => getLast_of_pairwise (hi.offered m) hlast.symm q (hall q hq)⟩

/-! ## Runs -/

def notWrappedCheck (s : St) : Act → Bool
  | .write _ _ _ _ _ => decide (s.channel.nextSequence ≠ 0)
  | _ => true

theorem notWrapped_of_check (s : St) (a : Act) (h : notWrappedCheck s a = true) : notWrapped s a := by
  cases a <;> try trivial
  exact of_decide_eq_true (p := s.channel.nextSequence ≠ 0) h

def queuedPolicy : MessagePolicy := { freshness := .queued, queueDepth := 4 }

/-- Two writers take sequences 1 and 2; the second is the first to push. -/
def overtaken (policy : MessagePolicy) : List Act :=
  [.addReader 0 policy, .write 1 [11] 5 0 0, .write 2 [22] 6 0 0, .push 2 false, .push 1 false, .push 2 false,
    .push 1 false]

def heldSequences (s : St) (m : Nat) : List Nat :=
  match s.mailboxes m with
  | some mailbox => mailbox.messages.map (·.metadata.sequence)
  | none => []

/-- A queued reader takes 2 before 1, and a `kLatest` reader that was offered both is left
    with 1. -/
theorem a_slower_writer_delivers_out_of_order :
    (∃ s, Reach step notWrapped (· = init [] .shared) s ∧ (s.received 0).map (·.metadata.sequence) = [2, 1]) ∧
    ∃ s, Reach step notWrapped (· = init [] .shared) s ∧ s.due 0 = [1, 2] ∧ s.offered 0 = [2, 1] ∧
      heldSequences s 0 = [1] := by
  constructor
  · obtain ⟨s, hs, hp⟩ : ∃ s, Reach step notWrapped (· = init [] .shared) s ∧
        decide ((s.received 0).map (·.metadata.sequence) = [2, 1]) = true :=
      reach_of_check notWrappedCheck (overtaken queuedPolicy ++ [.read 0, .read 0])
        (fun s => decide ((s.received 0).map (·.metadata.sequence) = [2, 1])) notWrapped_of_check rfl (by decide +kernel)
    exact ⟨s, hs, of_decide_eq_true hp⟩
  · obtain ⟨s, hs, hp⟩ : ∃ s, Reach step notWrapped (· = init [] .shared) s ∧
        decide (s.due 0 = [1, 2] ∧ s.offered 0 = [2, 1] ∧ heldSequences s 0 = [1]) = true :=
      reach_of_check notWrappedCheck (overtaken {})
        (fun s => decide (s.due 0 = [1, 2] ∧ s.offered 0 = [2, 1] ∧ heldSequences s 0 = [1])) notWrapped_of_check rfl
        (by decide +kernel)
    exact ⟨s, hs, of_decide_eq_true hp⟩

/-- Only thread 1 writes. -/
def soloCheck (s : St) : Act → Bool
  | .write τ _ _ _ _ => decide (τ = 1 ∧ s.channel.nextSequence ≠ 0)
  | .push τ _ => decide (τ = 1)
  | _ => true

theorem solo_step {s t : St} {a : Act} (hi : ∀ σ, σ ≠ 1 → inFlight (s.threads σ) = none) (hok : soloCheck s a = true)
    (h : step s a = some t) : ∀ σ, σ ≠ 1 → inFlight (t.threads σ) = none := by
  intro σ hσ
  suffices t.threads σ = s.threads σ by rw [this]; exact hi σ hσ
  cases a with
  | write τ payload ts now rec =>
    obtain ⟨rfl, -⟩ := of_decide_eq_true hok
    simp only [step] at h
    split at h
    · cases h
      simp only [publish]
      split
      · simp [hσ]
      · split <;> simp [hσ]
    · cases h
  | push τ throws =>
    obtain rfl := of_decide_eq_true hok
    simp only [step, push] at h
    split at h
    · cases h
    · cases h; simp [hσ]
    · obtain ⟨mailbox, -, h⟩ := Option.bind_eq_some_iff.mp h
      obtain ⟨pushed, -, rfl⟩ := Option.map_eq_some_iff.mp h
      simp [hσ]
  | read m =>
    simp only [step] at h
    split at h
    · obtain ⟨mailbox, -, rfl⟩ := Option.map_eq_some_iff.mp h
      split <;> rfl
    · cases h
  | closeNext =>
    simp only [step] at h
    split at h <;> cases h
    rfl
  | _ =>
    simp only [step] at h
    repeat' split at h
    all_goals cases h <;> rfl

theorem a_lone_writer_delivers_in_order :
    ∃ s, Reach step (fun s a => inOrder s a ∧ notWrapped s a) (· = init [] .shared) s ∧ s.due 0 = [1, 2] ∧
      ∃ last, (s.received 0 ++ (s.mailboxes 0).elim [] (·.messages)).getLast? = some last ∧
        ∀ q ∈ s.due 0, q ≤ last.metadata.sequence := by
  obtain ⟨s, hs, hp⟩ : ∃ s, Reach step (fun s a => soloCheck s a = true) (· = init [] .shared) s ∧
      decide (s.due 0 = [1, 2] ∧ s.offered 0 = [1, 2] ∧ (s.mailboxes 0).map (·.policy.freshness) = some .latest) = true :=
    reach_of_check soloCheck
      [.addReader 0 {}, .write 1 [11] 5 0 0, .push 1 false, .push 1 false, .write 1 [22] 6 0 0, .push 1 false]
      (fun s => decide (s.due 0 = [1, 2] ∧ s.offered 0 = [1, 2] ∧
        (s.mailboxes 0).map (·.policy.freshness) = some .latest)) (fun _ _ h => h) rfl (by decide +kernel)
  obtain ⟨hdue, hoff, hfresh⟩ := of_decide_eq_true hp
  have hs' : Reach step (fun s a => inOrder s a ∧ notWrapped s a) (· = init [] .shared) s := by
    refine hs.strengthen (I := fun s => ∀ σ, σ ≠ 1 → inFlight (s.threads σ) = none) ?_ ?_ ?_
    · rintro s rfl σ -
      rfl
    · exact fun s a t hi hok h => solo_step hi hok h
    · intro s a hi hok
      cases a with
      | write τ payload ts now rec => exact ⟨trivial, (of_decide_eq_true hok).2⟩
      | push τ throws =>
        obtain rfl := of_decide_eq_true hok
        refine ⟨fun q m rest _ σ q' remaining hσ hf => ?_, trivial⟩
        rw [hi σ hσ] at hf
        cases hf
      | _ => exact ⟨trivial, trivial⟩
  obtain ⟨mailbox, hmb, hlatest⟩ := Option.map_eq_some_iff.mp hfresh
  have := (readers_receive_in_sequence_order hs' hmb).2 hlatest (by rw [hdue]; simp) (by rw [hdue, hoff]; exact fun q h => h)
  exact ⟨s, hs', hdue, by rw [hmb]; exact this⟩

end PuppetMaster.InMemory
