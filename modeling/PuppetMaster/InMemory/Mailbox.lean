/-
  PuppetMaster.InMemory.Mailbox — one reader's mailbox (`InMemoryReader::Mailbox`).

  `push` and `read` are the sections under the mailbox mutex. A push into a full queue
  that blocks has no result yet (`none`): it waits on `space_available_` and, woken,
  finds the mailbox closed or with room, which is what a push that starts then finds.
  The callback is copied under the lock and called outside it; `throws` says whether it
  throws.
-/

import PuppetMaster.Core.Message
import PuppetMaster.Core.MessagePolicy

namespace PuppetMaster.InMemory

open PuppetMaster.Core

def usesUnboundedQueue (policy : MessagePolicy) : Bool :=
  decide (policy.freshness = .queued) && decide (policy.retention = .keepAll)

def queueCapacity (policy : MessagePolicy) : Nat :=
  if policy.freshness = .latest then 1 else policy.queueDepth

structure Mailbox where
  policy : MessagePolicy
  messages : List Message
  hasCallback : Bool
  closed : Bool
  deriving DecidableEq

namespace Mailbox

def fresh (policy : MessagePolicy) : Mailbox := ⟨policy, [], false, false⟩

def mailboxClosed : Status := .error .failedPrecondition (text "in-memory reader mailbox is closed")

def pushQueued (mailbox : Mailbox) (message : Message) : Option (Status × Mailbox) :=
  if usesUnboundedQueue mailbox.policy then some (.ok, { mailbox with messages := mailbox.messages ++ [message] })
  else if mailbox.messages.length < queueCapacity mailbox.policy then
    some (.ok, { mailbox with messages := mailbox.messages ++ [message] })
  else
    match mailbox.policy.overflow with
    | .dropOldest => some (.ok, { mailbox with messages := mailbox.messages.tail ++ [message] })
    | .dropNewest => some (.ok, mailbox)
    | .reject => some (.error .resourceExhausted (text "in-memory reader queue is full"), mailbox)
    | .block => none

/-- What calling the callback makes of an accepted push. -/
def notify (mailbox : Mailbox) (throws : Bool) : Status :=
  if mailbox.hasCallback && throws then .error .internal (text "in-memory reader callback failed") else .ok

def push (mailbox : Mailbox) (message : Message) (throws : Bool) : Option (Status × Mailbox) :=
  if mailbox.closed then some (mailboxClosed, mailbox)
  else if mailbox.policy.freshness = .latest then
    some (mailbox.notify throws, { mailbox with messages := [message] })
  else
    (mailbox.pushQueued message).map fun pushed =>
      if pushed.1.isOk then (mailbox.notify throws, pushed.2) else pushed

/-- `Read` once it need not wait any more. -/
def read (mailbox : Mailbox) : Result Message × Mailbox :=
  match mailbox.messages with
  | [] => (.error (.error .unavailable (text "no in-memory message is available")), mailbox)
  | message :: rest => (.ok message, { mailbox with messages := rest })

def close (mailbox : Mailbox) : Mailbox := { mailbox with closed := true }

/-- What a push can do to the messages: nothing, append, or append after dropping the
    oldest ones. -/
theorem push_messages {mailbox mailbox' : Mailbox} {message : Message} {throws : Bool} {status : Status}
    (h : mailbox.push message throws = some (status, mailbox')) :
    mailbox'.policy = mailbox.policy ∧ mailbox'.closed = mailbox.closed ∧
      ((mailbox.policy.freshness = .latest → mailbox.closed = true) ∧ mailbox'.messages = mailbox.messages ∨
       ∃ kept, kept <:+ mailbox.messages ∧ mailbox'.messages = kept ++ [message]) := by
  unfold push at h
  split at h
  · cases h
    exact ⟨rfl, rfl, .inl ⟨fun _ => ‹_›, rfl⟩⟩
  · split at h
    · cases h
      exact ⟨rfl, rfl, .inr ⟨[], List.nil_suffix, rfl⟩⟩
    · rename_i hlatest
      obtain ⟨⟨st, mb⟩, hq, h⟩ := Option.map_eq_some_iff.mp h
      have hmb : mailbox' = mb := by
        split at h <;> cases h <;> rfl
      subst hmb
      unfold pushQueued at hq
      split at hq
      · cases hq; exact ⟨rfl, rfl, .inr ⟨_, List.suffix_rfl, rfl⟩⟩
      · split at hq
        · cases hq; exact ⟨rfl, rfl, .inr ⟨_, List.suffix_rfl, rfl⟩⟩
        · split at hq
          · cases hq; exact ⟨rfl, rfl, .inr ⟨_, List.tail_suffix _, rfl⟩⟩
          · cases hq; exact ⟨rfl, rfl, .inl ⟨fun h => absurd h hlatest, rfl⟩⟩
          · cases hq; exact ⟨rfl, rfl, .inl ⟨fun h => absurd h hlatest, rfl⟩⟩
          · cases hq

end Mailbox

end PuppetMaster.InMemory
