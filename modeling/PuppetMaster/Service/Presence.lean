/-
  PuppetMaster.Service.Presence — servers that announce themselves, and a client that tells
  whether one is alive.

  Each server has a thread that announces heartbeats (`Server::Impl::Beat`) and a `Close`
  that joins it before it says goodbye. What a server wrote is read in its order, or lost,
  and the messages of two servers in any order. A crashed server is one that takes no more
  moves. Of the client it is the presence fields that matter; the clock is its own.

  `viewOf` is what the client should believe, from what it read: the server of the newest
  heartbeat, unless that server said goodbye since.
  - `client_view`: the client believes that. No heartbeat is taken for a repeated one.
  - `live_server_iff`: so there is a live server while that heartbeat is no older than the
    liveness window, and then the server announced it and has not said goodbye.
  - `gone_for_good`: a server whose goodbye was read is never the live one again.

  Two servers of one service share the client's one slot, so a goodbye can hide the other
  (`a_goodbye_hides_another_server`).
-/

import Mathlib.Data.List.Induction
import PuppetMaster.Lib.Lists
import PuppetMaster.Lib.Run
import PuppetMaster.Service.Client

namespace PuppetMaster.Service

open PuppetMaster.Core PuppetMaster.Lib

/-! ## A server -/

/-- The heartbeat thread: in the wait, past it, or gone. -/
inductive BeatPc where
  | waiting
  | announcing
  | exited
  deriving DecidableEq

/-- `Close`: not called, joining the heartbeat thread, or past the goodbye. -/
inductive WithdrawPc where
  | running
  | joining
  | withdrawn
  deriving DecidableEq

structure Announcer where
  instanceId : UInt64
  heartbeatSequence : UInt64 := 0
  beat : BeatPc := .waiting
  withdraw : WithdrawPc := .running
  /-- The sequences of the messages that were written and neither read nor lost. -/
  unread : List UInt64 := []
  deriving DecidableEq

/-- The message of an announcement. -/
def presenceMessage (instanceId sequence : UInt64) : Bytes := putU64 instanceId ++ putU64 sequence

def Announcer.announce (a : Announcer) (offline : Bool) : Announcer :=
  if offline then { a with unread := a.unread ++ [offlineSequence] }
  else
    let sequence := a.heartbeatSequence + 1
    { a with heartbeatSequence := sequence, unread := a.unread ++ [sequence] }

inductive AnnouncerMove where
  | wakes
  | announces
  | exits
  | closes
  | withdraws
  | loses (message : Nat)
  deriving DecidableEq

def Announcer.step (a : Announcer) : AnnouncerMove → Option Announcer
  | .wakes => if a.beat = .waiting ∧ a.withdraw = .running then some { a with beat := .announcing } else none
  | .announces => if a.beat = .announcing then some { a.announce false with beat := .waiting } else none
  | .exits => if a.beat = .waiting ∧ a.withdraw ≠ .running then some { a with beat := .exited } else none
  | .closes => if a.withdraw = .running then some { a with withdraw := .joining } else none
  | .withdraws =>
    if a.withdraw = .joining ∧ a.beat = .exited then some { a.announce true with withdraw := .withdrawn } else none
  | .loses message => some { a with unread := a.unread.eraseIdx message }

/-! ## The service -/

/-- A message that the client read: whose, its sequence, and the clock. -/
structure Heard where
  announcer : Nat
  sequence : UInt64
  time : Int
  deriving DecidableEq

structure PresenceSystem where
  announcers : List Announcer := []
  client : Client := {}
  now : Int := 0
  heard : List Heard := []
  deriving DecidableEq

inductive PresenceMove where
  | creates (instanceId : UInt64)
  | announcer (index : Nat) (move : AnnouncerMove)
  | reads (index : Nat)
  | passes (time : Nat)
  deriving DecidableEq

def PresenceSystem.step (s : PresenceSystem) : PresenceMove → Option PresenceSystem
  | .creates instanceId =>
    -- `RandomId` is never 0, and the first heartbeat goes out before `Create` returns
    if instanceId = 0 then none
    else some { s with announcers := s.announcers ++ [Announcer.announce { instanceId } false] }
  | .announcer index move => do
    let a ← s.announcers[index]?
    let a ← a.step move
    return { s with announcers := s.announcers.set index a }
  | .reads index => do
    let a ← s.announcers[index]?
    match a.unread with
    | [] => none
    | sequence :: unread =>
      return { s with
        announcers := s.announcers.set index { a with unread }
        client := readPresence s.client ⟨presenceMessage a.instanceId sequence, s.now⟩
        heard := s.heard ++ [⟨index, sequence, s.now⟩] }
  | .passes time => some { s with now := s.now + time }

/-- A random id is no server's yet, and no server announces 2^64 - 1 times. -/
def PresenceSystem.Usual (s : PresenceSystem) : PresenceMove → Prop
  | .creates instanceId => ∀ a ∈ s.announcers, a.instanceId ≠ instanceId
  | .announcer index .announces => ∀ a ∈ s.announcers[index]?, a.heartbeatSequence.toNat + 1 < 2 ^ 64
  | _ => True

instance : (s : PresenceSystem) → (move : PresenceMove) → Decidable (s.Usual move)
  | s, .creates instanceId => inferInstanceAs (Decidable (∀ a ∈ s.announcers, a.instanceId ≠ instanceId))
  | s, .announcer index .announces =>
    inferInstanceAs (Decidable (∀ a ∈ s.announcers[index]?, a.heartbeatSequence.toNat + 1 < 2 ^ 64))
  | _, .announcer _ .wakes => .isTrue trivial
  | _, .announcer _ .exits => .isTrue trivial
  | _, .announcer _ .closes => .isTrue trivial
  | _, .announcer _ .withdraws => .isTrue trivial
  | _, .announcer _ (.loses _) => .isTrue trivial
  | _, .reads _ => .isTrue trivial
  | _, .passes _ => .isTrue trivial

def PresenceSystem.Reached : PresenceSystem → Prop := Reach PresenceSystem.step PresenceSystem.Usual (· = {})

/-! ## What the client should believe -/

/-- The newest heartbeat, unless its server said goodbye since. -/
def viewStep (view : Option Heard) (heard : Heard) : Option Heard :=
  if heard.sequence = offlineSequence then view.filter fun newest => newest.announcer ≠ heard.announcer else some heard

def viewOf (heard : List Heard) : Option Heard := heard.foldl viewStep none

theorem viewOf_snoc (heard : List Heard) (last : Heard) : viewOf (heard ++ [last]) = viewStep (viewOf heard) last := by
  rw [viewOf, List.foldl_append]
  rfl

/-- The sequences that were read of a server. -/
def heardOf (heard : List Heard) (index : Nat) : List UInt64 :=
  (heard.filter fun message => message.announcer = index).map (·.sequence)

theorem heardOf_snoc (heard : List Heard) (last : Heard) (index : Nat) :
    heardOf (heard ++ [last]) index = heardOf heard index ++ if last.announcer = index then [last.sequence] else [] := by
  rw [heardOf, List.filter_append, List.map_append]
  by_cases h : last.announcer = index <;> simp [heardOf, h]

/-- The view is a heartbeat that was read, of a server whose goodbye was not read after it. -/
theorem viewOf_some {heard : List Heard} {newest : Heard} (h : viewOf heard = some newest) :
    newest ∈ heard ∧ newest.sequence ≠ offlineSequence := by
  induction heard using List.reverseRecOn with
  | nil => cases h
  | append_singleton heard last ih =>
    rw [viewOf_snoc, viewStep] at h
    split at h
    · obtain ⟨hview, -⟩ := Option.filter_eq_some_iff.mp h
      obtain ⟨hmem, hsequence⟩ := ih hview
      exact ⟨List.mem_append_left _ hmem, hsequence⟩
    · next hbeat =>
      cases h
      exact ⟨List.mem_append_right _ List.mem_cons_self, hbeat⟩

/-! ## One server's messages -/

/-- Heartbeats count up, and a goodbye is the last message. -/
def Precedes (earlier later : UInt64) : Prop := earlier ≠ offlineSequence ∧ (later ≠ offlineSequence → earlier < later)

/-- What a server wrote, from what was `read` on, is in order. -/
structure Announcer.Ordered (a : Announcer) (read : List UInt64) : Prop where
  id : a.instanceId ≠ 0
  order : (read ++ a.unread).Pairwise Precedes
  announced : ∀ sequence ∈ read ++ a.unread, sequence ≤ a.heartbeatSequence
  goodbye : offlineSequence ∈ read ++ a.unread → a.withdraw = .withdrawn
  joined : a.withdraw = .withdrawn → a.beat = .exited

theorem next_heartbeat {sequence : UInt64} (h : sequence.toNat + 1 < 2 ^ 64) : sequence < sequence + 1 ∧ sequence + 1 ≠ 0 := by
  have hnext : (sequence + 1).toNat = sequence.toNat + 1 := by
    rw [UInt64.toNat_add]
    exact Nat.mod_eq_of_lt h
  refine ⟨by rw [UInt64.lt_iff_toNat_lt, hnext]; omega, fun hzero => ?_⟩
  rw [hzero] at hnext
  exact absurd hnext (Nat.succ_ne_zero _).symm

theorem Announcer.Ordered.snoc {read : List UInt64} {a : Announcer} (h : a.Ordered read)
    (hrunning : a.withdraw ≠ .withdrawn) {sequence : UInt64}
    (hlast : sequence ≠ offlineSequence → a.heartbeatSequence < sequence) :
    (read ++ (a.unread ++ [sequence])).Pairwise Precedes := by
  rw [← List.append_assoc]
  refine List.pairwise_append.mpr ⟨h.order, List.pairwise_singleton _ _, fun earlier hearlier later hlater => ?_⟩
  obtain rfl := List.mem_singleton.mp hlater
  refine ⟨fun hzero => hrunning (h.goodbye (hzero ▸ hearlier)), fun hbeat => ?_⟩
  exact UInt64.lt_of_le_of_lt (h.announced earlier hearlier) (hlast hbeat)

theorem Announcer.Ordered.step {read : List UInt64} {a a' : Announcer} (h : a.Ordered read) {move : AnnouncerMove}
    (husual : move = .announces → a.heartbeatSequence.toNat + 1 < 2 ^ 64) (hstep : a.step move = some a') :
    a'.Ordered read := by
  cases move with
  | wakes =>
    simp only [Announcer.step, Option.ite_none_right_eq_some, Option.some.injEq] at hstep
    obtain ⟨⟨hbeat, hrunning⟩, rfl⟩ := hstep
    exact ⟨h.id, h.order, h.announced, h.goodbye, fun hwithdrawn => by rw [hrunning] at hwithdrawn; cases hwithdrawn⟩
  | announces =>
    simp only [Announcer.step, Option.ite_none_right_eq_some, Option.some.injEq] at hstep
    obtain ⟨hbeat, rfl⟩ := hstep
    have hrunning : a.withdraw ≠ .withdrawn := fun hwithdrawn => by
      rw [h.joined hwithdrawn] at hbeat
      cases hbeat
    obtain ⟨hless, hne⟩ := next_heartbeat (husual rfl)
    refine ⟨h.id, h.snoc hrunning fun _ => hless, ?_, ?_, fun hwithdrawn => absurd hwithdrawn hrunning⟩
    · intro sequence hsequence
      have hmem : sequence ∈ (read ++ a.unread) ++ [a.heartbeatSequence + 1] := by
        rw [List.append_assoc]
        exact hsequence
      rcases List.mem_append.mp hmem with hold | hnew
      · exact UInt64.le_trans (h.announced sequence hold) (UInt64.le_of_lt hless)
      · rw [List.mem_singleton.mp hnew]
        exact UInt64.le_refl _
    · intro hzero
      have hmem : offlineSequence ∈ (read ++ a.unread) ++ [a.heartbeatSequence + 1] := by
        rw [List.append_assoc]
        exact hzero
      rcases List.mem_append.mp hmem with hold | hnew
      · exact h.goodbye hold
      · exact absurd (List.mem_singleton.mp hnew).symm hne
  | exits =>
    simp only [Announcer.step, Option.ite_none_right_eq_some, Option.some.injEq] at hstep
    obtain ⟨-, rfl⟩ := hstep
    exact ⟨h.id, h.order, h.announced, h.goodbye, fun _ => rfl⟩
  | closes =>
    simp only [Announcer.step, Option.ite_none_right_eq_some, Option.some.injEq] at hstep
    obtain ⟨hrunning, rfl⟩ := hstep
    refine ⟨h.id, h.order, h.announced, fun hzero => ?_, fun hwithdrawn => by cases hwithdrawn⟩
    have hwithdrawn := h.goodbye hzero
    rw [hrunning] at hwithdrawn
    cases hwithdrawn
  | withdraws =>
    simp only [Announcer.step, Option.ite_none_right_eq_some, Option.some.injEq] at hstep
    obtain ⟨⟨hjoining, hexited⟩, rfl⟩ := hstep
    have hrunning : a.withdraw ≠ .withdrawn := by
      rw [hjoining]
      decide
    refine ⟨h.id, h.snoc hrunning fun hbeat => absurd rfl hbeat, ?_, fun _ => rfl, fun _ => hexited⟩
    intro sequence hsequence
    have hmem : sequence ∈ (read ++ a.unread) ++ [offlineSequence] := by
      rw [List.append_assoc]
      exact hsequence
    rcases List.mem_append.mp hmem with hold | hnew
    · exact h.announced sequence hold
    · rw [List.mem_singleton.mp hnew]
      exact UInt64.zero_le
  | loses message =>
    cases hstep
    have hkept : (read ++ a.unread.eraseIdx message).Sublist (read ++ a.unread) :=
      (List.Sublist.refl read).append (List.eraseIdx_sublist _ _)
    exact ⟨h.id, h.order.sublist hkept, fun sequence hsequence => h.announced sequence (hkept.subset hsequence),
      fun hzero => h.goodbye (hkept.subset hzero), h.joined⟩

/-! ## The whole service -/

/-- What the client's fields say of the servers. -/
def Believes (announcers : List Announcer) (client : Client) : Option Heard → Prop
  | none => client.serverInstance = 0 ∧ client.heartbeatSequence = 0
  | some newest =>
    ∃ a, announcers[newest.announcer]? = some a ∧ client.serverInstance = a.instanceId ∧
      client.heartbeatSequence = newest.sequence ∧ client.heartbeatAt = newest.time

def DistinctIds (announcers : List Announcer) : Prop :=
  ∀ (i j : Nat) (a b : Announcer), announcers[i]? = some a → announcers[j]? = some b → a.instanceId = b.instanceId → i = j

structure Sound (s : PresenceSystem) : Prop where
  ordered : ∀ (i : Nat) (a : Announcer), s.announcers[i]? = some a → a.Ordered (heardOf s.heard i)
  ids : DistinctIds s.announcers
  known : ∀ message ∈ s.heard, message.announcer < s.announcers.length
  present : ∀ newest, viewOf s.heard = some newest → offlineSequence ∉ heardOf s.heard newest.announcer
  believes : Believes s.announcers s.client (viewOf s.heard)

theorem heardOf_unknown {heard : List Heard} {index : Nat} (h : ∀ message ∈ heard, message.announcer < index) :
    heardOf heard index = [] := by
  rw [heardOf, List.map_eq_nil_iff, List.filter_eq_nil_iff]
  intro message hmem heq
  have hless := h message hmem
  have heq := of_decide_eq_true heq
  omega

theorem mem_heardOf {heard : List Heard} {message : Heard} (h : message ∈ heard) :
    message.sequence ∈ heardOf heard message.announcer :=
  List.mem_map.mpr ⟨message, List.mem_filter.mpr ⟨h, decide_eq_true rfl⟩, rfl⟩

/-- What stays when one announcer changes and keeps its id. -/
theorem Believes.set {announcers : List Announcer} {client : Client} {view : Option Heard} {i : Nat} {a a' : Announcer}
    (h : Believes announcers client view) (ha : announcers[i]? = some a) (hid : a'.instanceId = a.instanceId) :
    Believes (announcers.set i a') client view := by
  cases view with
  | none => exact h
  | some newest =>
    obtain ⟨b, hb, hinstance, hrest⟩ := h
    by_cases heq : i = newest.announcer
    · subst heq
      obtain ⟨hlt, -⟩ := List.getElem?_eq_some_iff.mp ha
      rw [ha] at hb
      cases hb
      exact ⟨a', List.getElem?_set_self hlt, hinstance.trans hid.symm, hrest⟩
    · exact ⟨b, by rw [List.getElem?_set_ne heq, hb], hinstance, hrest⟩

theorem step_instanceId {a a' : Announcer} {move : AnnouncerMove} (h : a.step move = some a') : a'.instanceId = a.instanceId := by
  cases move <;> simp only [Announcer.step, Option.ite_none_right_eq_some, Option.some.injEq] at h
  case loses => rw [← h]
  all_goals
    obtain ⟨-, rfl⟩ := h
    rfl

/-- Distinct ids stay distinct when one announcer changes and keeps its own. -/
theorem ids_set {announcers : List Announcer} {i : Nat} {a a' : Announcer} (ha : announcers[i]? = some a)
    (hid : a'.instanceId = a.instanceId) (hids : DistinctIds announcers) : DistinctIds (announcers.set i a') := by
  have hold : ∀ (j : Nat) (b : Announcer), (announcers.set i a')[j]? = some b → ∃ b' : Announcer, announcers[j]? = some b'
    ∧ b'.instanceId = b.instanceId := by
    intro j b hb
    rw [getElem?_set_cases ha] at hb
    split at hb
    · next hsame =>
      cases hb
      exact ⟨a, hsame ▸ ha, hid.symm⟩
    · exact ⟨b, hb, rfl⟩
  intro j k b c hb hc heq
  obtain ⟨b', hb', hbid⟩ := hold j b hb
  obtain ⟨c', hc', hcid⟩ := hold k c hc
  exact hids j k b' c' hb' hc' (by rw [hbid, hcid, heq])

/-- What the client makes of an announcement. -/
theorem readPresence_message (client : Client) (instanceId sequence : UInt64) (now : Int) :
    readPresence client ⟨presenceMessage instanceId sequence, now⟩ =
      if instanceId = client.serverInstance ∧ sequence = client.heartbeatSequence then client
      else if sequence = offlineSequence then
        if instanceId = client.serverInstance then
          { client with serverInstance := 0, heartbeatSequence := 0, heartbeatAt := 0, serverWithdrew := true }
        else client
      else
        { client with
          serverInstance := instanceId, heartbeatSequence := sequence, heartbeatAt := now, serverWithdrew := false } := by
  have hlength : (presenceMessage instanceId sequence).length = presenceSize := by
    rw [presenceMessage, List.length_append, putU64, putU64, length_putLe, length_putLe]
    rfl
  have hinstance : getU64 (presenceMessage instanceId sequence) = instanceId := getU64_put _ instanceId
  have hsequence : getU64 ((presenceMessage instanceId sequence).drop 8) = sequence := by
    have hdrop := drop_putU64 (putU64 sequence) instanceId 0
    rw [presenceMessage, hdrop, List.drop_zero, ← List.append_nil (putU64 sequence)]
    exact getU64_put [] sequence
  rw [readPresence]
  simp only [hlength, ne_eq, not_true, if_false, hinstance, hsequence]

theorem Sound.creates {s : PresenceSystem} (h : Sound s) {instanceId : UInt64} (hid : instanceId ≠ 0)
    (hnew : ∀ a ∈ s.announcers, a.instanceId ≠ instanceId) :
    Sound { s with announcers := s.announcers ++ [Announcer.announce { instanceId } false] } := by
  refine ⟨?_, ?_, ?_, h.present, ?_⟩
  · intro i a ha
    rcases getElem?_concat_cases ha with hold | ⟨rfl, rfl⟩
    · exact h.ordered i a hold
    · rw [heardOf_unknown h.known]
      refine ⟨hid, List.pairwise_singleton _ _, ?_, ?_, fun hwithdrawn => by cases hwithdrawn⟩
      · intro sequence hsequence
        rw [List.mem_singleton.mp hsequence]
        exact UInt64.le_refl _
      · intro hzero
        have hne : offlineSequence ≠ 0 + 1 := by decide
        exact absurd (List.mem_singleton.mp hzero) hne
  · intro i j a b ha hb heq
    rcases getElem?_concat_cases ha with holda | ⟨rfl, rfl⟩
    · rcases getElem?_concat_cases hb with holdb | ⟨rfl, rfl⟩
      · exact h.ids i j a b holda holdb heq
      · exact absurd heq (hnew a (List.mem_of_getElem? holda))
    · rcases getElem?_concat_cases hb with holdb | ⟨rfl, -⟩
      · exact absurd heq.symm (hnew b (List.mem_of_getElem? holdb))
      · rfl
  · intro message hmem
    rw [List.length_append]
    exact Nat.lt_add_right _ (h.known message hmem)
  · have hbelieves := h.believes
    cases hview : viewOf s.heard with
    | none =>
      rw [hview] at hbelieves
      exact hbelieves
    | some newest =>
      rw [hview] at hbelieves
      obtain ⟨a, ha, hrest⟩ := hbelieves
      obtain ⟨hlt, -⟩ := List.getElem?_eq_some_iff.mp ha
      exact ⟨a, by rw [List.getElem?_append_left hlt, ha], hrest⟩

theorem Sound.announcer {s : PresenceSystem} (h : Sound s) {index : Nat} {a a' : Announcer} {move : AnnouncerMove}
    (ha : s.announcers[index]? = some a) (husual : s.Usual (.announcer index move)) (hstep : a.step move = some a') :
    Sound { s with announcers := s.announcers.set index a' } := by
  have hid := step_instanceId hstep
  refine ⟨?_, ids_set ha hid h.ids, fun message hmem => by rw [List.length_set]; exact h.known message hmem, h.present,
    h.believes.set ha hid⟩
  intro i b hb
  rw [getElem?_set_cases ha] at hb
  split at hb
  · next hsame =>
    cases hb
    subst hsame
    refine (h.ordered i a ha).step (fun hmove => ?_) hstep
    subst hmove
    exact husual a ha
  · exact h.ordered i b hb

/-- Everything read before is before this message. -/
theorem Sound.precedes {s : PresenceSystem} (h : Sound s) {index : Nat} {a : Announcer} {sequence : UInt64} {unread : List UInt64}
    (ha : s.announcers[index]? = some a) (hunread : a.unread = sequence :: unread) :
    ∀ earlier ∈ heardOf s.heard index, Precedes earlier sequence := by
  have horder := (h.ordered index a ha).order
  rw [hunread] at horder
  exact fun earlier hearlier => (List.pairwise_append.mp horder).2.2 earlier hearlier sequence List.mem_cons_self

/-- A read takes the view a step further, and the client with it. -/
theorem Sound.believes_read {s : PresenceSystem} (h : Sound s) {index : Nat} {a : Announcer} {sequence : UInt64}
    {unread : List UInt64}
    (ha : s.announcers[index]? = some a) (hunread : a.unread = sequence :: unread) :
    Believes (s.announcers.set index { a with unread }) (readPresence s.client ⟨presenceMessage a.instanceId sequence, s.now⟩)
      (viewOf (s.heard ++ [⟨index, sequence, s.now⟩])) := by
  have hordered := h.ordered index a ha
  obtain ⟨hlt, -⟩ := List.getElem?_eq_some_iff.mp ha
  have hself : Believes (s.announcers.set index { a with unread }) s.client (viewOf s.heard) := h.believes.set ha rfl
  rw [viewOf_snoc, viewStep, readPresence_message]
  by_cases hgoodbye : sequence = offlineSequence
  · simp only [hgoodbye, if_true]
    cases hview : viewOf s.heard with
    | none =>
      rw [hview] at hself
      have hother : a.instanceId ≠ s.client.serverInstance := by
        rw [hself.1]
        exact hordered.id
      rw [if_neg (fun hsame => hother hsame.1), if_neg hother]
      exact hself
    | some newest =>
      rw [hview] at hself
      obtain ⟨b, hb, hinstance, hsequence, htime⟩ := hself
      have hbeat : offlineSequence ≠ s.client.heartbeatSequence := by
        rw [hsequence]
        exact (viewOf_some hview).2.symm
      rw [if_neg fun hsame => hbeat hsame.2]
      by_cases heq : newest.announcer = index
      · -- the server that the client believes in
        have hself : a.instanceId = s.client.serverInstance := by
          rw [heq, List.getElem?_set_self hlt] at hb
          cases hb
          exact hinstance.symm
        rw [if_pos hself, Option.filter_some, if_neg (by simpa using heq)]
        exact ⟨rfl, rfl⟩
      · have hother : a.instanceId ≠ s.client.serverInstance := by
          intro hsame
          rw [List.getElem?_set_ne (Ne.symm heq)] at hb
          exact heq (h.ids _ _ b a hb ha (hinstance.symm.trans hsame.symm))
        rw [if_neg hother, Option.filter_some, if_pos (by simpa using heq)]
        exact ⟨b, hb, hinstance, hsequence, htime⟩
  · -- a heartbeat: were it the one that the client has, it would be before itself
    have hnew : ¬ (a.instanceId = s.client.serverInstance ∧ sequence = s.client.heartbeatSequence) := by
      rintro ⟨hid, hsequence⟩
      cases hview : viewOf s.heard with
      | none =>
        rw [hview] at hself
        exact hordered.id (hid.trans hself.1)
      | some newest =>
        have hbelieves := h.believes
        rw [hview] at hbelieves
        obtain ⟨b, hb, hinstance, hnewest, -⟩ := hbelieves
        have heq := h.ids _ _ b a hb ha (hinstance.symm.trans hid.symm)
        have hmem := mem_heardOf (viewOf_some hview).1
        rw [heq, ← hnewest, ← hsequence] at hmem
        exact UInt64.lt_irrefl _ ((h.precedes ha hunread sequence hmem).2 hgoodbye)
    rw [if_neg hnew, if_neg hgoodbye, if_neg hgoodbye]
    exact ⟨_, List.getElem?_set_self hlt, rfl, rfl, rfl⟩

theorem Sound.reads {s : PresenceSystem} (h : Sound s) {index : Nat} {a : Announcer} {sequence : UInt64} {unread : List UInt64}
    (ha : s.announcers[index]? = some a) (hunread : a.unread = sequence :: unread) :
    Sound { s with
      announcers := s.announcers.set index { a with unread }
      client := readPresence s.client ⟨presenceMessage a.instanceId sequence, s.now⟩
      heard := s.heard ++ [⟨index, sequence, s.now⟩] } := by
  have hordered := h.ordered index a ha
  have hsame : (heardOf s.heard index ++ [sequence]) ++ unread = heardOf s.heard index ++ a.unread := by
    rw [hunread, List.append_assoc, List.singleton_append]
  refine ⟨?_, ids_set ha rfl h.ids, ?_, ?_, ?_⟩
  · intro i b hb
    rw [heardOf_snoc]
    rw [getElem?_set_cases ha] at hb
    split at hb
    · next heq =>
      cases hb
      subst heq
      rw [if_pos rfl]
      exact ⟨hordered.id, hsame ▸ hordered.order, fun q hq => hordered.announced q (hsame ▸ hq),
        fun hzero => hordered.goodbye (hsame ▸ hzero), hordered.joined⟩
    · next heq =>
      rw [if_neg (Ne.symm heq), List.append_nil]
      exact h.ordered i b hb
  · intro message hmem
    rw [List.length_set]
    rcases List.mem_append.mp hmem with hold | hnew
    · exact h.known message hold
    · rw [List.mem_singleton.mp hnew]
      exact (List.getElem?_eq_some_iff.mp ha).1
  · intro newest hnewest
    rw [viewOf_snoc, viewStep] at hnewest
    rw [heardOf_snoc]
    split at hnewest
    · obtain ⟨hview, hother⟩ := Option.filter_eq_some_iff.mp hnewest
      have hother := of_decide_eq_true hother
      rw [if_neg (Ne.symm hother), List.append_nil]
      exact h.present newest hview
    · next hbeat =>
      cases hnewest
      rw [if_pos rfl]
      intro hzero
      rcases List.mem_append.mp hzero with hold | hnew
      · exact (h.precedes ha hunread offlineSequence hold).1 rfl
      · exact hbeat (List.mem_singleton.mp hnew).symm
  · -- without the projections: matched with them, the message would be decoded
    dsimp only
    exact h.believes_read ha hunread

theorem sound {s : PresenceSystem} (h : s.Reached) : Sound s := by
  refine Reach.invariant ?_ ?_ h
  · rintro s rfl
    exact ⟨fun i a ha => (nomatch ha), fun i j a b ha => (nomatch ha), fun message hmem => (nomatch hmem),
      fun newest hnewest => (nomatch hnewest), ⟨rfl, rfl⟩⟩
  · intro s move t hsound husual hstep
    cases move with
    | creates instanceId =>
      simp only [PresenceSystem.step, Option.ite_none_left_eq_some, Option.some.injEq] at hstep
      obtain ⟨hid, rfl⟩ := hstep
      exact hsound.creates hid husual
    | announcer index move =>
      simp only [PresenceSystem.step, Option.bind_eq_bind, Option.bind_eq_some_iff] at hstep
      obtain ⟨a, ha, a', ha', hstep⟩ := hstep
      cases hstep
      exact hsound.announcer ha husual ha'
    | reads index =>
      simp only [PresenceSystem.step, Option.bind_eq_bind, Option.bind_eq_some_iff] at hstep
      obtain ⟨a, ha, hstep⟩ := hstep
      cases hunread : a.unread with
      | nil =>
        rw [hunread] at hstep
        cases hstep
      | cons sequence unread =>
        rw [hunread] at hstep
        cases hstep
        exact hsound.reads ha hunread
    | passes time =>
      cases hstep
      exact ⟨hsound.ordered, hsound.ids, hsound.known, hsound.present, hsound.believes⟩

/-! ## Who is alive -/

/-- The client believes what it should. -/
theorem client_view {s : PresenceSystem} (h : s.Reached) : Believes s.announcers s.client (viewOf s.heard) := (sound h).believes

/-- There is a live server exactly while the newest heartbeat that was read, of a server that did
not say goodbye since, is in the window; and it is that server, which announced that heartbeat. -/
theorem live_server_iff (spec : ServiceSpec) {s : PresenceSystem} (h : s.Reached) :
    liveServer spec s.client s.now = none ↔
      ∃ newest a, viewOf s.heard = some newest ∧ s.now - newest.time ≤ liveness spec ∧
        s.announcers[newest.announcer]? = some a ∧ s.client.serverInstance = a.instanceId ∧
        newest ∈ s.heard ∧ newest.sequence ≠ offlineSequence ∧ newest.sequence ≤ a.heartbeatSequence ∧
        offlineSequence ∉ heardOf s.heard newest.announcer := by
  have hsound := sound h
  have hbelieves := hsound.believes
  have hlive : liveServer spec s.client s.now = none ↔
      s.client.serverInstance ≠ 0 ∧ s.now - s.client.heartbeatAt ≤ liveness spec := by
    unfold liveServer
    dsimp only
    split
    · next hdead =>
      refine ⟨fun h => (nomatch h), fun halive => ?_⟩
      rcases hdead with hzero | hlate
      · exact absurd hzero halive.1
      · exact absurd halive.2 (Int.not_le.mpr hlate)
    · next hlive =>
      obtain ⟨hne, hwindow⟩ := not_or.mp hlive
      exact ⟨fun _ => ⟨hne, Int.not_lt.mp hwindow⟩, fun _ => rfl⟩
  rw [hlive]
  cases hview : viewOf s.heard with
  | none =>
    rw [hview] at hbelieves
    constructor
    · intro halive
      exact absurd hbelieves.1 halive.1
    · intro halive
      obtain ⟨newest, a, hnone, -⟩ := halive
      cases hnone
  | some newest =>
    rw [hview] at hbelieves
    obtain ⟨a, ha, hinstance, -, htime⟩ := hbelieves
    have hordered := hsound.ordered _ a ha
    obtain ⟨hmem, hbeat⟩ := viewOf_some hview
    constructor
    · intro halive
      have hannounced := hordered.announced newest.sequence (List.mem_append_left _ (mem_heardOf hmem))
      exact ⟨newest, a, rfl, htime ▸ halive.2, ha, hinstance, hmem, hbeat, hannounced, hsound.present newest hview⟩
    · intro halive
      obtain ⟨newest', a', hsome, hwindow, -⟩ := halive
      cases hsome
      rw [hinstance, htime]
      exact ⟨hordered.id, hwindow⟩

/-- A run of checked moves, to where `p` holds. -/
theorem reached_where (moves : List PresenceMove) (p : PresenceSystem → Bool)
    (h : (run (fun s move => if decide (s.Usual move) then s.step move else none) {} moves).map p = some true) :
    ∃ s : PresenceSystem, s.Reached ∧ p s = true :=
  reach_of_check (fun s move => decide (s.Usual move)) moves p (fun _ _ => of_decide_eq_true) rfl h

/-- Ten nanoseconds after the first heartbeat, with an interval of five. -/
theorem live_server_iff_created :
    ∃ s : PresenceSystem, s.Reached ∧ (liveServer ⟨[115], 5⟩ s.client s.now = none ↔
      ∃ newest a, viewOf s.heard = some newest ∧ s.now - newest.time ≤ liveness ⟨[115], 5⟩ ∧
        s.announcers[newest.announcer]? = some a ∧ s.client.serverInstance = a.instanceId ∧
        newest ∈ s.heard ∧ newest.sequence ≠ offlineSequence ∧ newest.sequence ≤ a.heartbeatSequence ∧
        offlineSequence ∉ heardOf s.heard newest.announcer) := by
  obtain ⟨s, hreached, -⟩ := reached_where [.creates 7, .reads 0, .passes 10] (fun _ => true) (by decide +kernel)
  exact ⟨s, hreached, live_server_iff ⟨[115], 5⟩ hreached⟩

/-- Two servers, and the goodbye of the one that was heard last: the other is alive, was heard at
this very time and has not said goodbye, and the client says that the server stopped. -/
theorem a_goodbye_hides_another_server :
    ∃ s : PresenceSystem, s.Reached ∧ liveServer ⟨[115], 5⟩ s.client s.now ≠ none ∧ s.client.serverWithdrew = true ∧
      s.announcers[0]?.map Announcer.withdraw = some WithdrawPc.running ∧ (⟨0, 1, s.now⟩ : Heard) ∈ s.heard ∧
      offlineSequence ∉ heardOf s.heard 0 := by
  obtain ⟨s, hreached, hs⟩ := reached_where
    [.creates 7, .creates 8, .reads 0, .reads 1, .announcer 1 .closes, .announcer 1 .exits, .announcer 1 .withdraws, .reads 1]
    (fun s : PresenceSystem => decide (liveServer ⟨[115], 5⟩ s.client s.now ≠ none ∧ s.client.serverWithdrew = true ∧
      s.announcers[0]?.map Announcer.withdraw = some WithdrawPc.running ∧ (⟨0, 1, s.now⟩ : Heard) ∈ s.heard ∧
      offlineSequence ∉ heardOf s.heard 0)) (by decide +kernel)
  exact ⟨s, hreached, of_decide_eq_true hs⟩

/-- A server whose goodbye was read is never again the one the client believes in. -/
theorem gone_for_good {s : PresenceSystem} (h : s.Reached) {index : Nat} {a : Announcer}
    (ha : s.announcers[index]? = some a) (hgoodbye : offlineSequence ∈ heardOf s.heard index) :
    a.withdraw = .withdrawn ∧ s.client.serverInstance ≠ a.instanceId := by
  have hsound := sound h
  have hbelieves := hsound.believes
  have hordered := hsound.ordered index a ha
  refine ⟨hordered.goodbye (List.mem_append_left _ hgoodbye), fun hinstance => ?_⟩
  cases hview : viewOf s.heard with
  | none =>
    rw [hview] at hbelieves
    exact hordered.id (hinstance.symm.trans hbelieves.1)
  | some newest =>
    rw [hview] at hbelieves
    obtain ⟨b, hb, hsame, -⟩ := hbelieves
    have heq := hsound.ids _ _ b a hb ha (hsame.symm.trans hinstance)
    exact hsound.present newest hview (heq ▸ hgoodbye)

/-- A server that closes, with a heartbeat and its goodbye read. -/
theorem gone_for_good_closed :
    ∃ (s : PresenceSystem) (a : Announcer), s.Reached ∧ s.announcers[0]? = some a ∧
      offlineSequence ∈ heardOf s.heard 0 ∧ a.withdraw = .withdrawn ∧ s.client.serverInstance ≠ a.instanceId := by
  obtain ⟨s, hreached, hs⟩ := reached_where
    [.creates 7, .reads 0, .announcer 0 .closes, .announcer 0 .exits, .announcer 0 .withdraws, .reads 0]
    (fun s => decide (s.announcers[0]?.isSome = true ∧ offlineSequence ∈ heardOf s.heard 0)) (by decide +kernel)
  obtain ⟨hsome, hgoodbye⟩ := of_decide_eq_true hs
  obtain ⟨a, ha⟩ := Option.isSome_iff_exists.mp hsome
  exact ⟨s, a, hreached, ha, hgoodbye, gone_for_good hreached ha hgoodbye⟩

end PuppetMaster.Service
