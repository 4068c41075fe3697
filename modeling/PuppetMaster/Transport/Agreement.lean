/-
  PuppetMaster.Transport.Agreement — the two local backends answer alike.

  One side keeps a queue for each reader and drops from it when a message arrives, the
  other keeps one ring for all and moves a reader's cursor when it reads. `Mirrors` relates
  a mailbox to a cursor: the mailbox holds the messages of the ring from the clamped cursor
  up to the newest. Creating a reader, writing, reading and counting keep it (`related_*`),
  so the answers to every list of allowed calls are the same (`backends_agree`).

  A sequence is a 64-bit number on both sides, and so is a cursor. It takes 2^64 - 1 writes
  for a cursor to wrap: its reader then gets the newest message again and again
  (`a_wrapped_cursor_reads_twice`).
-/

import PuppetMaster.Lib.Calls
import PuppetMaster.Lib.Lists
import PuppetMaster.Shm.FailedPublish
import PuppetMaster.Transport.Local

namespace PuppetMaster.Transport

open PuppetMaster.Core PuppetMaster.InMemory PuppetMaster.Lib PuppetMaster.Shm PuppetMaster.Shm.Seqlock

variable {g : Geometry}

/-- A reader that keeps the last messages, no more than the ring has. -/
structure KeepsLast (g : Geometry) (policy : MessagePolicy) : Prop where
  retention : policy.retention = .keepLast
  overflow : policy.overflow = .dropOldest
  pos : 1 ≤ policy.queueDepth
  le : policy.queueDepth ≤ g.slotCount

def Allowed (g : Geometry) : Call → Prop
  | .createReader policy => KeepsLast g policy
  | .write payload sourceTimestamp _ => sourceTimestamp ≠ 0 ∧ payload.length ≤ g.slotPayloadSize
  | .read _ => True
  | .pendingMessageCount _ => True

instance (policy : MessagePolicy) : Decidable (KeepsLast g policy) :=
  decidable_of_iff (policy.retention = .keepLast ∧ policy.overflow = .dropOldest ∧ 1 ≤ policy.queueDepth ∧
    policy.queueDepth ≤ g.slotCount) ⟨fun ⟨h1, h2, h3, h4⟩ => ⟨h1, h2, h3, h4⟩, fun h => ⟨h.1, h.2, h.3, h.4⟩⟩

instance : (c : Call) → Decidable (Allowed g c)
  | .createReader policy => inferInstanceAs (Decidable (KeepsLast g policy))
  | .write _ _ _ => inferInstanceAs (Decidable (_ ∧ _))
  | .read _ => .isTrue trivial
  | .pendingMessageCount _ => .isTrue trivial

def isWrite : Call → Bool
  | .write .. => true
  | _ => false

theorem KeepsLast.depth_pos {policy : MessagePolicy} (h : KeepsLast g policy) : 1 ≤ readerDepth policy := by
  have := h.pos
  unfold readerDepth
  split <;> omega

theorem KeepsLast.depth_le {policy : MessagePolicy} (h : KeepsLast g policy) : readerDepth policy ≤ g.slotCount := by
  have := h.le
  have := g.slotCount_pos
  unfold readerDepth
  split <;> omega

theorem KeepsLast.effectiveDepth {policy : MessagePolicy} (h : KeepsLast g policy) :
    Shm.effectiveDepth g (readerDepth policy) = readerDepth policy := by
  have := h.depth_pos
  have := h.depth_le
  unfold Shm.effectiveDepth
  omega

/-! ## One publish into the ring -/

theorem bytesAt_getD (payload : Bytes) (old : Nat → UInt8) :
    bytesAt (overwrite payload.length (fun i => payload.getD i 0) old) payload.length = payload := by
  apply List.ext_getElem
  · exact bytesAt_length _ _
  · intro i h1 h2
    simp [bytesAt, overwrite, h2]

/-- The ring `r'` is `r` with one message more. -/
structure Published (g : Geometry) (r r' : Ring) (message : Message) : Prop where
  newest : r'.writeSeq = r.writeSeq + 1
  shown : readable g r' (r.writeSeq + 1) = true
  message : (r'.slots (slotAt g (r.writeSeq + 1))).message (r.writeSeq + 1) = message
  others : ∀ i, i ≠ slotAt g (r.writeSeq + 1) → r'.slots i = r.slots i

theorem publish_published {r : Ring} (payload : Bytes) (ts : Int) (hfits : payload.length ≤ g.slotPayloadSize)
    (hw : r.writeSeq + 1 < 2 ^ 64) :
    ∃ r', Shm.publish g r (.ok false) payload ts = (.ok (r.writeSeq + 1), r') ∧
      Published g r r' ⟨payload, { sequence := r.writeSeq + 1, sourceTimestamp := ts }⟩ := by
  have hnext : u64 (r.writeSeq + 1) = r.writeSeq + 1 := Nat.mod_eq_of_lt hw
  have hsize : ¬ g.slotPayloadSize < payload.length := by omega
  unfold Shm.publish publishWith
  simp only [hsize, if_false, hnext, invokeFill, Nat.lt_irrefl]
  refine ⟨_, rfl, rfl, ?_, ?_, fun i hi => ?_⟩
  · simp [readable, hfits]
  · simp only [Slot.message, Ring.setSlot_self]
    rw [bytesAt_getD]
  · simp only
    rw [Ring.setSlot_ne _ _ hi, Ring.setSlot_ne _ _ hi]

/-- Every message the ring can still hold is there. -/
def Full (g : Geometry) (r : Ring) : Prop :=
  ∀ k, 1 ≤ k → k ≤ r.writeSeq → r.writeSeq < k + g.slotCount → readable g r k = true

theorem Published.same {r r' : Ring} {message : Message} (h : Published g r r' message) {k : Nat} (hk : k ≤ r.writeSeq)
    (hring : r.writeSeq + 1 < k + g.slotCount) : r'.slots (slotAt g k) = r.slots (slotAt g k) :=
  h.others _ (slotAt_ne (by omega) hring)

theorem Published.full {r r' : Ring} {message : Message} (h : Published g r r' message) (hfull : Full g r) : Full g r' := by
  intro k h1 h2 h3
  rw [h.newest] at h2 h3
  by_cases hk : k = r.writeSeq + 1
  · rw [hk]
    exact h.shown
  · have hold := hfull k h1 (by omega) (by omega)
    rw [readable, h.same (by omega) h3]
    exact hold

/-- A stretch that keeps clear of the new message's slot is followed by the message. -/
theorem Published.messagesFrom {r r' : Ring} {message : Message} (h : Published g r r' message) {c : Nat}
    (hc : c ≤ r.writeSeq + 1) (hring : r.writeSeq + 1 < c + g.slotCount) :
    Seqlock.messagesFrom g r' c = Seqlock.messagesFrom g r c ++ [message] := by
  have hrange : List.range' c (r.writeSeq + 1 + 1 - c) = List.range' c (r.writeSeq + 1 - c) ++ [r.writeSeq + 1] := by
    have hlen : r.writeSeq + 1 + 1 - c = (r.writeSeq + 1 - c) + 1 := by omega
    have hlast : c + (r.writeSeq + 1 - c) = r.writeSeq + 1 := by omega
    rw [hlen, List.range'_1_concat, hlast]
  have hsame : ∀ k ∈ List.range' c (r.writeSeq + 1 - c), r'.slots (slotAt g k) = r.slots (slotAt g k) := by
    intro k hk
    obtain ⟨h1, h2⟩ := List.mem_range'_1.mp hk
    exact h.same (by omega) (by omega)
  unfold Seqlock.messagesFrom
  rw [h.newest, hrange, List.filter_append, List.map_append]
  congr 1
  · rw [List.filter_congr (q := readable g r) fun k hk => by simp only [readable, hsame k hk]]
    exact List.map_congr_left fun k hk => by rw [hsame k (List.mem_of_mem_filter hk)]
  · rw [List.filter_cons_of_pos h.shown, List.filter_nil, List.map_cons, List.map_nil, h.message]

/-! ## One reader -/

/-- What the replies show of a message. -/
def contents (message : Message) : Bytes × Nat × Int :=
  (message.payload, message.metadata.sequence, message.metadata.sourceTimestamp)

/-- The mailbox holds what the reader at the cursor still gets. -/
structure Mirrors (g : Geometry) (r : Ring) (mailbox : Mailbox) (reader : ReaderState) : Prop where
  isOpen : mailbox.closed = false
  policy : KeepsLast g mailbox.policy
  depth : reader.depth = readerDepth mailbox.policy
  pos : 1 ≤ reader.cursor
  le : reader.cursor ≤ r.writeSeq + 1
  messages : mailbox.messages.map contents =
    (messagesFrom g r (clampCursor reader.cursor r.writeSeq (effectiveDepth g reader.depth))).map contents

theorem mirrors_fresh {r : Ring} {policy : MessagePolicy} (h : KeepsLast g policy) (hw : r.writeSeq + 1 < 2 ^ 64) :
    Mirrors g r (.fresh policy) ⟨u64 (r.writeSeq + 1), readerDepth policy⟩ := by
  have hnext : u64 (r.writeSeq + 1) = r.writeSeq + 1 := Nat.mod_eq_of_lt hw
  refine ⟨rfl, h, rfl, ?_, ?_, ?_⟩
  · show 1 ≤ u64 (r.writeSeq + 1)
    omega
  · show u64 (r.writeSeq + 1) ≤ r.writeSeq + 1
    omega
  · have hpast : r.writeSeq < clampCursor (u64 (r.writeSeq + 1)) r.writeSeq (effectiveDepth g (readerDepth policy)) := by
      rw [hnext]
      exact Nat.le_max_left _ _
    rw [messagesFrom_past hpast]
    rfl

section

variable {r : Ring} {mailbox : Mailbox} {reader : ReaderState}

/-- The clamped cursor, once the depth is known to fit the ring. -/
theorem Mirrors.effectiveDepth (h : Mirrors g r mailbox reader) :
    Shm.effectiveDepth g reader.depth = readerDepth mailbox.policy := by
  rw [h.depth]
  exact h.policy.effectiveDepth

/-- From the clamped cursor on, nothing is missing. -/
theorem Mirrors.readable (h : Mirrors g r mailbox reader) (hfull : Full g r) {k : Nat}
    (hk : clampCursor reader.cursor r.writeSeq (Shm.effectiveDepth g reader.depth) ≤ k) (hw : k ≤ r.writeSeq) :
    Seqlock.readable g r k = true := by
  have hle := h.policy.depth_le
  have hpos := h.pos
  rw [h.effectiveDepth] at hk
  simp only [clampCursor] at hk
  refine hfull k (by omega) hw ?_
  split at hk <;> omega

theorem Mirrors.length (h : Mirrors g r mailbox reader) (hfull : Full g r) :
    mailbox.messages.length = r.writeSeq + 1 - clampCursor reader.cursor r.writeSeq (Shm.effectiveDepth g reader.depth) := by
  have hlen := congrArg List.length h.messages
  rw [List.length_map, List.length_map] at hlen
  rw [hlen]
  exact messagesFrom_length.mpr fun k hk hw => h.readable hfull hk hw

theorem mirrors_pending (h : Mirrors g r mailbox reader) (hfull : Full g r) (hw : r.writeSeq + 1 < 2 ^ 64) :
    pending g r reader.cursor reader.depth = mailbox.messages.length := by
  rw [pending_eq reader.depth h.pos hw, h.length hfull]

/-- A reader gets its first message, or none, on both sides. -/
theorem mirrors_read (h : Mirrors g r mailbox reader) (hfull : Full g r) (hw : r.writeSeq + 1 < 2 ^ 64) :
    Reply.ofRead mailbox.read.1 = Reply.ofRead (ShmTopic.tryReadFrom g r reader).1 ∧
      Mirrors g r mailbox.read.2 (ShmTopic.tryReadFrom g r reader).2 := by
  have hmessages := h.messages
  have hpasses : maxPasses g = g.slotCount + 15 + 1 := rfl
  by_cases hpast : r.writeSeq < reader.cursor
  · -- nothing new
    have hnone : messagesFrom g r (clampCursor reader.cursor r.writeSeq (Shm.effectiveDepth g reader.depth)) = [] :=
      messagesFrom_past (Nat.lt_of_lt_of_le hpast (Nat.le_max_left _ _))
    have hempty : mailbox.messages = [] := by
      rw [hnone, List.map_nil] at hmessages
      exact List.map_eq_nil_iff.mp hmessages
    have hread : ShmTopic.tryReadFrom g r reader =
        (.error (.error .unavailable (text "no shm message available")), reader) := by
      unfold ShmTopic.tryReadFrom tryRead
      rw [hpasses, tryReadLoop, if_pos hpast]
    have hmailbox : mailbox.read =
        (.error (.error .unavailable (text "no in-memory message is available")), mailbox) := by
      unfold Mailbox.read
      rw [hempty]
    rw [hread, hmailbox]
    exact ⟨rfl, h⟩
  · have hle : reader.cursor ≤ r.writeSeq := by omega
    obtain ⟨hlow, hhigh⟩ := clampCursor_bounds h.pos hle (effectiveDepth_pos (g := g) reader.depth)
    have hshown := h.readable hfull (Nat.le_refl _) hhigh
    have hidem := clampCursor_idem reader.cursor r.writeSeq (Shm.effectiveDepth g reader.depth)
    generalize hc : clampCursor reader.cursor r.writeSeq (Shm.effectiveDepth g reader.depth) = c at *
    have hnext : u64 (c + 1) = c + 1 := Nat.mod_eq_of_lt (by omega)
    have hread : ShmTopic.tryReadFrom g r reader =
        (.ok ((r.slots (slotAt g c)).message c), { reader with cursor := c + 1 }) := by
      unfold ShmTopic.tryReadFrom tryRead
      rw [hpasses, tryReadLoop, if_neg hpast]
      simp only [hc]
      rw [if_pos (by simpa [Seqlock.readable] using hshown), hnext]
    rw [messagesFrom_step hhigh, if_pos hshown, List.map_cons] at hmessages
    obtain ⟨first, rest, hsplit, hfirst, hrest⟩ := List.map_eq_cons_iff.mp hmessages
    have hmailbox : mailbox.read = (.ok first, { mailbox with messages := rest }) := by
      unfold Mailbox.read
      rw [hsplit]
    rw [hread, hmailbox]
    constructor
    · simp only [contents, Prod.mk.injEq] at hfirst
      simp only [Reply.ofRead, Reply.ofMessage, hfirst]
    · have hclamp : clampCursor (c + 1) r.writeSeq (Shm.effectiveDepth g reader.depth) = c + 1 :=
        clampCursor_of_le hidem (by omega)
      refine ⟨h.isOpen, h.policy, h.depth, ?_, ?_, ?_⟩
      · show 1 ≤ c + 1
        omega
      · show c + 1 ≤ r.writeSeq + 1
        omega
      · show rest.map contents = _
        rw [hrest, hclamp]

/-- A reader that keeps the last messages takes the new one, and drops the oldest if it has to. -/
theorem push_keepsLast (h : KeepsLast g mailbox.policy) (hopen : mailbox.closed = false) (message : Message)
    (hlen : mailbox.messages.length ≤ readerDepth mailbox.policy) :
    mailbox.push message false = some (.ok, { mailbox with messages :=
      (if mailbox.messages.length < readerDepth mailbox.policy then mailbox.messages else mailbox.messages.tail)
        ++ [message] }) := by
  have hnotify : mailbox.notify false = .ok := by simp [Mailbox.notify]
  unfold Mailbox.push
  rw [if_neg (by rw [hopen]; exact Bool.false_ne_true), hnotify]
  by_cases hlatest : mailbox.policy.freshness = .latest
  · have hone : readerDepth mailbox.policy = 1 := if_pos hlatest
    have hkept : (if mailbox.messages.length < readerDepth mailbox.policy then mailbox.messages
        else mailbox.messages.tail) = [] := by
      apply List.length_eq_zero_iff.mp
      rw [hone] at hlen ⊢
      split
      · omega
      · rw [List.length_tail]
        omega
    rw [if_pos hlatest, hkept]
    rfl
  · have hcapacity : queueCapacity mailbox.policy = readerDepth mailbox.policy := by
      rw [queueCapacity, readerDepth, if_neg hlatest]
    have hbounded : usesUnboundedQueue mailbox.policy = false := by simp [usesUnboundedQueue, h.retention]
    rw [if_neg hlatest, Mailbox.pushQueued, hbounded, if_neg Bool.false_ne_true, hcapacity, h.overflow]
    split
    · rfl
    · rfl

/-- A publish moves the clamped cursor on only if the reader has all it keeps. -/
theorem clampCursor_publish {cursor w d : Nat} (hd : 1 ≤ d) (hpos : 1 ≤ cursor) (hle : cursor ≤ w + 1) :
    clampCursor cursor (w + 1) d =
      if w + 1 - clampCursor cursor w d < d then clampCursor cursor w d else clampCursor cursor w d + 1 := by
  simp only [clampCursor]
  split <;> split <;> split <;> omega

/-- A push does to the mailbox what the new message does to the stretch behind the cursor. -/
theorem mirrors_push (h : Mirrors g r mailbox reader) (hfull : Full g r) {r' : Ring} {message pushed : Message}
    (hpub : Published g r r' message) (hsame : contents pushed = contents message) :
    ∃ mailbox', mailbox.push pushed false = some (.ok, mailbox') ∧ Mirrors g r' mailbox' reader := by
  have hd := h.policy.depth_pos
  have hdn := h.policy.depth_le
  have hle := h.le
  have hpos := h.pos
  have hmessages := h.messages
  have hlen := h.length hfull
  have hshown := fun k => h.readable hfull (k := k)
  rw [h.effectiveDepth] at hmessages hlen hshown
  have hclamp := clampCursor_publish hd hpos hle
  have hbounds : clampCursor reader.cursor (r.writeSeq + 1) (readerDepth mailbox.policy) ≤ r.writeSeq + 1 ∧
      r.writeSeq + 1 < clampCursor reader.cursor (r.writeSeq + 1) (readerDepth mailbox.policy) + g.slotCount := by
    simp only [clampCursor]
    split <;> omega
  have hkeeps : mailbox.messages.length ≤ readerDepth mailbox.policy := by
    rw [hlen]
    simp only [clampCursor]
    split <;> omega
  refine ⟨_, push_keepsLast h.policy h.isOpen pushed hkeeps, h.isOpen, h.policy, h.depth, hpos, ?_, ?_⟩
  · rw [hpub.newest]
    omega
  · rw [hpub.newest, h.effectiveDepth, hpub.messagesFrom hbounds.1 hbounds.2, hclamp, ← hlen]
    simp only [List.map_append, List.map_cons, List.map_nil, hsame]
    congr 1
    split
    · exact hmessages
    · next hroom =>
      have hin : clampCursor reader.cursor r.writeSeq (readerDepth mailbox.policy) ≤ r.writeSeq := by omega
      rw [messagesFrom_step hin, if_pos (hshown _ (Nat.le_refl _) hin), List.map_cons] at hmessages
      rw [List.map_tail, hmessages, List.tail_cons]

end

/-! ## All readers -/

/-- The topics hold the same for every reader. -/
structure Related (g : Geometry) (m : InMemoryTopic) (s : ShmTopic) : Prop where
  next : m.nextSequence = s.ring.writeSeq + 1
  full : Full g s.ring
  readers : List.Forall₂ (Mirrors g s.ring) m.mailboxes s.readers

theorem pushAll_mirrors {r r' : Ring} {message : Message} (pushed : Message) (hfull : Full g r) (hpub : Published g r r' message)
    (hsame : contents pushed = contents message) {mailboxes : List Mailbox} {readers : List ReaderState}
    (h : List.Forall₂ (Mirrors g r) mailboxes readers) :
    ∃ mailboxes', InMemoryTopic.pushAll pushed mailboxes .ok = some (.ok, mailboxes') ∧
      List.Forall₂ (Mirrors g r') mailboxes' readers := by
  induction h with
  | nil => exact ⟨[], rfl, .nil⟩
  | cons hfirst _ ih =>
    obtain ⟨mailbox', hpush, hmirror⟩ := mirrors_push hfirst hfull hpub hsame
    obtain ⟨rest, hrest, hmirrors⟩ := ih
    refine ⟨mailbox' :: rest, ?_, .cons hmirror hmirrors⟩
    rw [InMemoryTopic.pushAll, hpush, Option.bind_some]
    have hok : (if (Status.ok.isOk && !Status.ok.isOk) = true then Status.ok else Status.ok) = Status.ok := rfl
    rw [hok, hrest]
    rfl

theorem Related.fresh (name : Bytes) : Related g {} { name := name } :=
  ⟨rfl, fun _ h1 h2 _ => absurd (Nat.le_trans h1 h2) (Nat.not_succ_le_zero 0), .nil⟩

section

variable {m : InMemoryTopic} {s : ShmTopic}

theorem related_createReader (h : Related g m s) {policy : MessagePolicy} (hpolicy : KeepsLast g policy)
    (hw : s.ring.writeSeq + 1 < 2 ^ 64) :
    ∃ o m' s', m.step (.createReader policy) = some (o, m') ∧ s.step g (.createReader policy) = some (o, s') ∧
      Related g m' s' ∧ s'.ring = s.ring := by
  have hvalid : policy.validate = .ok := by
    have := hpolicy.pos
    rw [MessagePolicy.validate, if_neg (by omega)]
  have hbounded : ¬ (policy.freshness = .queued ∧ policy.retention = .keepAll) := by
    rw [hpolicy.retention]
    intro h
    obtain ⟨-, h⟩ := h
    cases h
  have hfits : ¬ g.slotCount < readerDepth policy := Nat.not_lt.mpr hpolicy.depth_le
  have hstatus : s.validatePolicy g policy = .ok := by
    unfold ShmTopic.validatePolicy
    rw [hvalid, if_neg (by decide), if_neg hbounded, if_neg (not_not.mpr hpolicy.overflow), if_neg hfits]
  refine ⟨.status .ok, { m with mailboxes := m.mailboxes ++ [.fresh policy] },
    { s with readers := s.readers ++ [⟨u64 (s.ring.writeSeq + 1), readerDepth policy⟩] }, ?_, ?_,
    ⟨h.next, h.full, List.rel_append h.readers (.cons (mirrors_fresh hpolicy hw) .nil)⟩, rfl⟩
  · rw [InMemoryTopic.step, hvalid]
    rfl
  · rw [ShmTopic.step, hstatus]
    rfl

theorem related_write (h : Related g m s) (payload : Bytes) (sourceTimestamp now : Int)
    (hstamp : sourceTimestamp ≠ 0) (hfits : payload.length ≤ g.slotPayloadSize) (hw : s.ring.writeSeq + 2 < 2 ^ 64) :
    ∃ o m' s', m.step (.write payload sourceTimestamp now) = some (o, m') ∧
      s.step g (.write payload sourceTimestamp now) = some (o, s') ∧ Related g m' s' ∧
      s'.ring.writeSeq = s.ring.writeSeq + 1 ∧ s'.readers = s.readers := by
  obtain ⟨ring, hpublish, hpub⟩ := publish_published (r := s.ring) payload sourceTimestamp hfits (by omega)
  obtain ⟨mailboxes, hpush, hmirrors⟩ := pushAll_mirrors
    ⟨payload, ⟨m.nextSequence, sourceTimestamp, now⟩⟩ h.full hpub (by rw [h.next]; rfl) h.readers
  have hnext : u64 (m.nextSequence + 1) = s.ring.writeSeq + 1 + 1 := by
    rw [h.next]
    exact Nat.mod_eq_of_lt (by omega)
  refine ⟨.status .ok, { nextSequence := u64 (m.nextSequence + 1), mailboxes := mailboxes }, { s with ring := ring }, ?_, ?_,
    ⟨?_, hpub.full h.full, hmirrors⟩, hpub.newest, rfl⟩
  · simp only [InMemoryTopic.step, InMemoryTopic.publish, if_neg hstamp, hpush, Option.map_some]
    rfl
  · simp only [ShmTopic.step, if_neg hstamp, hpublish]
  · show u64 (m.nextSequence + 1) = ring.writeSeq + 1
    rw [hnext, hpub.newest]

theorem related_read (h : Related g m s) (reader : Nat) (hw : s.ring.writeSeq + 1 < 2 ^ 64) :
    ∃ o m' s', m.step (.read reader) = some (o, m') ∧ s.step g (.read reader) = some (o, s') ∧ Related g m' s' ∧
      s'.ring = s.ring := by
  rcases forall₂_getElem? h.readers reader with ⟨hm, hs⟩ | ⟨mailbox, state, hm, hs, hmirror⟩
  · exact ⟨.noReader, m, s, by simp only [InMemoryTopic.step, hm], by simp only [ShmTopic.step, hs], h, rfl⟩
  · obtain ⟨hreply, hmirror'⟩ := mirrors_read hmirror h.full hw
    refine ⟨.ofRead mailbox.read.1, { m with mailboxes := m.mailboxes.set reader mailbox.read.2 },
      { s with readers := s.readers.set reader (ShmTopic.tryReadFrom g s.ring state).2 }, ?_, ?_,
      ⟨h.next, h.full, forall₂_set h.readers reader hmirror'⟩, rfl⟩
    · simp only [InMemoryTopic.step, hm]
    · simp only [ShmTopic.step, hs, hreply]

theorem related_pendingMessageCount (h : Related g m s) (reader : Nat) (hw : s.ring.writeSeq + 1 < 2 ^ 64) :
    ∃ o, m.step (.pendingMessageCount reader) = some (o, m) ∧ s.step g (.pendingMessageCount reader) = some (o, s) := by
  rcases forall₂_getElem? h.readers reader with ⟨hm, hs⟩ | ⟨mailbox, state, hm, hs, hmirror⟩
  · exact ⟨.noReader, by simp only [InMemoryTopic.step, hm], by simp only [ShmTopic.step, hs]⟩
  · refine ⟨.count mailbox.messages.length, by simp only [InMemoryTopic.step, hm], ?_⟩
    simp only [ShmTopic.step, hs, mirrors_pending hmirror h.full hw]

end

/-- Related topics, with calls to come that are allowed and do not wrap a sequence. -/
structure Ready (g : Geometry) (calls : List Call) (m : InMemoryTopic) (s : ShmTopic) : Prop where
  related : Related g m s
  allowed : ∀ c ∈ calls, Allowed g c
  below : s.ring.writeSeq + calls.countP isWrite + 1 < 2 ^ 64

theorem ready_step {c : Call} {calls : List Call} {m : InMemoryTopic} {s : ShmTopic} (h : Ready g (c :: calls) m s) :
    ∃ o m' s', m.step c = some (o, m') ∧ s.step g c = some (o, s') ∧ Ready g calls m' s' := by
  have hc := h.allowed c List.mem_cons_self
  have hrest := fun c' hc' => h.allowed c' (List.mem_cons_of_mem _ hc')
  have hbelow := h.below
  rw [List.countP_cons] at hbelow
  cases c with
  | createReader policy =>
    obtain ⟨o, m', s', hm, hs, hrelated, hring⟩ := related_createReader h.related hc (by omega)
    exact ⟨o, m', s', hm, hs, hrelated, hrest, by rw [hring]; omega⟩
  | write payload sourceTimestamp now =>
    simp only [isWrite, if_true] at hbelow
    obtain ⟨o, m', s', hm, hs, hrelated, hnewest, -⟩ := related_write h.related payload sourceTimestamp now hc.1 hc.2 (by omega)
    exact ⟨o, m', s', hm, hs, hrelated, hrest, by rw [hnewest]; omega⟩
  | read reader =>
    obtain ⟨o, m', s', hm, hs, hrelated, hring⟩ := related_read h.related reader (by omega)
    exact ⟨o, m', s', hm, hs, hrelated, hrest, by rw [hring]; omega⟩
  | pendingMessageCount reader =>
    obtain ⟨o, hm, hs⟩ := related_pendingMessageCount h.related reader (by omega)
    exact ⟨o, m, s, hm, hs, h.related, hrest, by omega⟩

/-- On a fresh topic the two backends answer every list of allowed calls alike, as long as it
    has fewer than 2^64 - 1 writes. -/
theorem backends_agree (g : Geometry) (name : Bytes) (calls : List Call) (h : ∀ c ∈ calls, Allowed g c)
    (hwrites : calls.countP isWrite < 2 ^ 64 - 1) :
    ∃ replies m s, answers InMemoryTopic.step {} calls = some (replies, m) ∧
      answers (ShmTopic.step g) { name := name } calls = some (replies, s) := by
  have hready : Ready g calls {} { name := name } :=
    ⟨Related.fresh name, h, by show 0 + calls.countP isWrite + 1 < 2 ^ 64; omega⟩
  obtain ⟨replies, m, s, hm, hs, -⟩ := answers_agree ready_step hready
  exact ⟨replies, m, s, hm, hs⟩

/-- A ring of two slots with one byte each. -/
def twoBytes : Geometry := ⟨⟨1, 2⟩, by decide⟩

/-- Three writes overflow a queued reader that joined first; a late reader keeps the newest. -/
def overflowing : List Call :=
  [.createReader { freshness := .queued, queueDepth := 2 }, .write [7] 1 0, .createReader {}, .write [8] 2 0,
    .write [9] 3 0, .pendingMessageCount 0, .read 0, .read 1, .read 1, .read 0, .read 0]

theorem overflowing_readers_agree :
    (answers InMemoryTopic.step {} overflowing).map Prod.fst =
        some [.status .ok, .status .ok, .status .ok, .status .ok, .status .ok, .count 2, .message [8] 2 2,
          .message [9] 3 3, .status .unavailable, .message [9] 3 3, .status .unavailable] ∧
      ∃ replies m s, answers InMemoryTopic.step {} overflowing = some (replies, m) ∧
        answers (ShmTopic.step twoBytes) { name := [116] } overflowing = some (replies, s) :=
  ⟨by decide, backends_agree twoBytes [116] overflowing (by decide) (by decide)⟩

/-! ## A wrapped cursor -/

/-- A ring of one slot. -/
def oneByte : Geometry := ⟨⟨1, 1⟩, by decide⟩

def emptyWrite : Call := .write [] 1 0

/-- One reader of the newest message, and `n` writes. -/
def writesOf (n : Nat) : List Call := .createReader {} :: List.replicate n emptyWrite

theorem after_writes {n : Nat} (hn : n + 1 < 2 ^ 64) :
    ∃ os m s, answers InMemoryTopic.step {} (writesOf n) = some (os, m) ∧
      answers (ShmTopic.step oneByte) { name := [116] } (writesOf n) = some (os, s) ∧ Related oneByte m s ∧
      s.ring.writeSeq = n ∧ s.readers = [⟨1, 1⟩] := by
  induction n with
  | zero =>
    refine ⟨[.status .ok], { mailboxes := [.fresh {}] }, { name := [116], readers := [⟨1, 1⟩] }, rfl, rfl, ?_, rfl, rfl⟩
    exact ⟨rfl, (Related.fresh [116]).full, .cons (mirrors_fresh (r := .fresh) (by decide) (by decide)) .nil⟩
  | succ n ih =>
    obtain ⟨os, m, s, hm, hs, hrelated, hnewest, hreaders⟩ := ih (by omega)
    obtain ⟨o, m', s', hm', hs', hrelated', hnewest', hreaders'⟩ :=
      related_write hrelated [] 1 0 (by decide) (by decide) (by omega)
    have hcalls : writesOf (n + 1) = writesOf n ++ [emptyWrite] := by
      rw [writesOf, List.replicate_succ']
      rfl
    rw [hcalls]
    exact ⟨os ++ [o], m', s', answers_append hm (answers_cons hm' rfl), answers_append hs (answers_cons hs' rfl),
      hrelated', by rw [hnewest', hnewest], by rw [hreaders', hreaders]⟩

/-- A reader of the newest message gets it from any cursor up to it. -/
theorem tryReadFrom_newest {r : Ring} (cursor : Nat) (hle : cursor ≤ r.writeSeq) (hpos : 1 ≤ r.writeSeq)
    (hshown : readable g r r.writeSeq = true) :
    ShmTopic.tryReadFrom g r ⟨cursor, 1⟩ =
      (.ok ((r.slots (slotAt g r.writeSeq)).message r.writeSeq), ⟨u64 (r.writeSeq + 1), 1⟩) := by
  have hdepth : effectiveDepth g 1 = 1 := by
    have := g.slotCount_pos
    unfold effectiveDepth
    omega
  have hclamp : clampCursor cursor r.writeSeq 1 = r.writeSeq := by
    unfold clampCursor
    split <;> omega
  have hpasses : maxPasses g = g.slotCount + 15 + 1 := rfl
  unfold ShmTopic.tryReadFrom tryRead
  rw [hpasses, tryReadLoop, if_neg (Nat.not_lt.mpr hle)]
  simp only [hdepth, hclamp]
  rw [if_pos (by simpa [readable] using hshown)]

/-- In memory: one more write, the message it brings, and nothing after it. -/
theorem inMemory_last_answers {m : InMemoryTopic} {mailbox : Mailbox} (hmailboxes : m.mailboxes = [mailbox])
    (hpolicy : KeepsLast g mailbox.policy) (hopen : mailbox.closed = false) (hdepth : readerDepth mailbox.policy = 1)
    (hlen : mailbox.messages.length ≤ 1) :
    ∃ message m', answers InMemoryTopic.step m [emptyWrite, .read 0, .read 0] =
      some ([.status .ok, .ofMessage message, .status .unavailable], m') := by
  let message : Message := ⟨[], ⟨m.nextSequence, 1, 0⟩⟩
  have hkept : (if mailbox.messages.length < readerDepth mailbox.policy then mailbox.messages
      else mailbox.messages.tail) = [] := by
    apply List.length_eq_zero_iff.mp
    rw [hdepth]
    split
    · omega
    · rw [List.length_tail]
      omega
  have hpush := push_keepsLast hpolicy hopen message (by rw [hdepth]; exact hlen)
  rw [hkept, List.nil_append] at hpush
  have hall : InMemoryTopic.pushAll message m.mailboxes .ok = some (.ok, [{ mailbox with messages := [message] }]) := by
    rw [hmailboxes, InMemoryTopic.pushAll, hpush]
    rfl
  let written : InMemoryTopic := ⟨u64 (m.nextSequence + 1), [{ mailbox with messages := [message] }]⟩
  let taken : InMemoryTopic := ⟨u64 (m.nextSequence + 1), [{ mailbox with messages := [] }]⟩
  have hwrite : m.step emptyWrite = some (.status .ok, written) := by
    show ((InMemoryTopic.pushAll message m.mailboxes .ok).map _).map _ = _
    rw [hall]
    rfl
  have hread : written.step (.read 0) = some (.ofMessage message, taken) := rfl
  have hnone : taken.step (.read 0) = some (.status .unavailable, taken) := rfl
  exact ⟨message, taken, answers_cons hwrite (answers_cons hread (answers_cons hnone rfl))⟩

/-- In shared memory, the write that takes the sequence 2^64 - 1: its message comes twice. -/
theorem shm_last_answers {s : ShmTopic} (hnewest : s.ring.writeSeq + 2 = 2 ^ 64) (hreaders : s.readers = [⟨1, 1⟩]) :
    ∃ message s', answers (ShmTopic.step oneByte) s [emptyWrite, .read 0, .read 0] =
      some ([.status .ok, .ofMessage message, .ofMessage message], s') := by
  obtain ⟨r, hpublish, hpub⟩ := publish_published (g := oneByte) (r := s.ring) [] 1 (by decide) (by omega)
  have hw := hpub.newest
  have hshown : readable oneByte r r.writeSeq = true := hw ▸ hpub.shown
  have hwraps : u64 (r.writeSeq + 1) = 0 := by
    unfold u64
    omega
  have hfirst := tryReadFrom_newest (g := oneByte) (r := r) 1 (by omega) (by omega) hshown
  have hagain := tryReadFrom_newest (g := oneByte) (r := r) 0 (by omega) (by omega) hshown
  rw [hwraps] at hfirst hagain
  let message := (r.slots (slotAt oneByte r.writeSeq)).message r.writeSeq
  let written : ShmTopic := { s with ring := r }
  let taken : ShmTopic := { s with ring := r, readers := [⟨0, 1⟩] }
  have hwrite : s.step oneByte emptyWrite = some (.status .ok, written) := by
    have hstamp : (1 : Int) ≠ 0 := by decide
    simp only [emptyWrite, ShmTopic.step, if_neg hstamp, hpublish, written]
  have hread : written.step oneByte (.read 0) = some (.ofMessage message, taken) := by
    simp only [ShmTopic.step, written, hreaders, List.getElem?_cons_zero, hfirst]
    rfl
  have hreread : taken.step oneByte (.read 0) = some (.ofMessage message, taken) := by
    simp only [ShmTopic.step, taken, List.getElem?_cons_zero, hagain]
    rfl
  exact ⟨message, taken, answers_cons hwrite (answers_cons hread (answers_cons hreread rfl))⟩

/-- One reader of the newest message, 2^64 - 1 writes, and two reads. -/
def wrapping : List Call := writesOf (2 ^ 64 - 2) ++ [emptyWrite, .read 0, .read 0]

/-- The reader takes the newest message and its cursor wraps to 0. In shared memory it gets the
    message once more; in memory there is none left. -/
theorem a_wrapped_cursor_reads_twice :
    (∀ c ∈ wrapping, Allowed oneByte c) ∧
      ¬ ∃ replies m s, answers InMemoryTopic.step {} wrapping = some (replies, m) ∧
        answers (ShmTopic.step oneByte) { name := [116] } wrapping = some (replies, s) := by
  constructor
  · intro c hc
    rcases List.mem_append.mp hc with hc | hc
    · rcases List.mem_cons.mp hc with rfl | hc
      · decide
      · cases List.eq_of_mem_replicate hc
        decide
    · have hlast : ∀ c ∈ [emptyWrite, .read 0, .read 0], Allowed oneByte c := by decide
      exact hlast c hc
  · intro h
    obtain ⟨replies, m, s, hm, hs⟩ := h
    obtain ⟨os, m', s', hm', hs', hrelated, hnewest, hreaders⟩ := after_writes (n := 2 ^ 64 - 2) (by omega)
    have hmirrors := hrelated.readers
    rw [hreaders] at hmirrors
    obtain ⟨mailbox, _, hmirror, hnil, hmailboxes⟩ := List.forall₂_cons_right_iff.mp hmirrors
    cases List.forall₂_nil_right_iff.mp hnil
    have hdepth : readerDepth mailbox.policy = 1 := hmirror.depth.symm
    have hlen : mailbox.messages.length ≤ 1 := by
      rw [hmirror.length hrelated.full, hmirror.effectiveDepth, hdepth]
      simp only [clampCursor]
      split <;> omega
    obtain ⟨message, m'', hlast⟩ := inMemory_last_answers hmailboxes hmirror.policy hmirror.isOpen hdepth hlen
    obtain ⟨message', s'', hlast'⟩ := shm_last_answers (s := s') (by omega) hreaders
    have hreplies := (answers_append hm' hlast).symm.trans hm
    have hreplies' := (answers_append hs' hlast').symm.trans hs
    cases hreplies
    have hsame := List.append_cancel_left (congrArg Prod.fst (Option.some.inj hreplies'))
    simp [Reply.ofMessage] at hsame

end PuppetMaster.Transport
