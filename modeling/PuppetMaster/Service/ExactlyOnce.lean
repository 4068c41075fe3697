/-
  PuppetMaster.Service.ExactlyOnce — every accepted call is completed once.

  `places` counts where a call's callback is: with a caller, in `pending`, in the
  dispatcher's or the closer's list of completions, invoked, or destroyed by an `emplace`
  that found its key taken. `Accounted`: each call's callback is in exactly one of them,
  in every run, so no call is completed twice.

  A call can still be left behind. `AwaitServerLocked` asks for `closed` in its second
  loop only when no reader is matched, so a caller that waits there while `Close` drains
  `pending` can register afterwards, and nobody is left to complete its call once the
  request is written. `completable` is the condition that keeps this out: no write
  succeeds for a call that is pending after the drain, and a new request id is not that
  of a pending call. `Watched`: then every call that is pending after the drain has a
  caller who will take it back.
-/

import Mathlib.Data.List.Nodup
import PuppetMaster.Lib.Lists
import PuppetMaster.Service.Client

namespace PuppetMaster.Service

open PuppetMaster.Core PuppetMaster.Lib

/-! ## Where the callbacks are -/

/-- The callback a caller holds. -/
def Call.held? (call : Call) : Option Nat :=
  match call.pc with
  | .entered => some call.ticket
  | .awaiting _ => some call.ticket
  | .matching => some call.ticket
  | .failing _ => some call.ticket
  | .failSend owner _ => some owner
  | _ => none

def DispatcherPc.completions : DispatcherPc → List Completion
  | .reading completions => completions
  | .running completions => completions
  | _ => []

def CloserPc.completions : CloserPc → List Completion
  | .running cancelled => cancelled
  | _ => []

def heldBy (calls : List Call) (n : Nat) : Nat := (calls.filterMap Call.held?).count n

def pendingOf (pending : List (UInt64 × Pending)) (n : Nat) : Nat := (pending.map fun entry => entry.2.call).count n

def among (completions : List Completion) (n : Nat) : Nat := (completions.map Completion.call).count n

def places (s : Client) (n : Nat) : Nat :=
  heldBy s.calls n + pendingOf s.pending n + among s.dispatcher.completions n + among s.closer.completions n
    + among s.fired n + s.dropped.count n

structure Accounted (s : Client) : Prop where
  once : ∀ n, places s n = if n < s.calls.length then 1 else 0
  keys : (s.pending.map Prod.fst).Nodup
  tickets : s.calls.map Call.ticket = List.range s.calls.length

/-! ## The pending map -/

section PendingMap

variable {pending : List (UInt64 × Pending)} {id : UInt64}

theorem findPending_some {found : Pending} (h : findPending pending id = some found) : (id, found) ∈ pending := by
  obtain ⟨⟨key, call⟩, hfind, rfl⟩ := Option.map_eq_some_iff.mp h
  have hkey : key = id := by simpa using List.find?_some hfind
  rw [← hkey]
  exact List.mem_of_find?_eq_some hfind

theorem findPending_none (h : findPending pending id = none) : id ∉ pending.map Prod.fst := by
  intro hmem
  obtain ⟨entry, hentry, rfl⟩ := List.mem_map.mp hmem
  have := List.find?_eq_none.mp (Option.map_eq_none_iff.mp h) entry hentry
  simp at this

/-- With distinct keys, erasing a key removes the entry found under it and no other. -/
theorem erasePending_perm {found : Pending} (hkeys : (pending.map Prod.fst).Nodup)
    (h : findPending pending id = some found) : ((id, found) :: erasePending pending id).Perm pending := by
  have hmem := findPending_some h
  clear h
  induction pending with
  | nil => cases hmem
  | cons entry rest ih =>
    rw [List.map_cons, List.nodup_cons] at hkeys
    rcases List.mem_cons.mp hmem with heq | hmem
    · subst heq
      have hrest : erasePending rest id = rest := by
        refine List.filter_eq_self.mpr fun entry hentry => ?_
        have hmem := List.mem_map_of_mem (f := Prod.fst) hentry
        simp only [decide_eq_true_eq]
        exact fun heq => hkeys.1 (heq ▸ hmem)
      rw [erasePending, List.filter_cons_of_neg (by simp)]
      rw [erasePending] at hrest
      rw [hrest]
    · have hne : entry.1 ≠ id := fun heq => hkeys.1 (heq ▸ List.mem_map_of_mem (f := Prod.fst) hmem)
      rw [erasePending, List.filter_cons_of_pos (by simpa using hne)]
      exact (List.Perm.swap _ _ _).trans ((ih hkeys.2 hmem).cons entry)

theorem erasePending_keys (hkeys : (pending.map Prod.fst).Nodup) : ((erasePending pending id).map Prod.fst).Nodup :=
  (List.filter_sublist.map Prod.fst).nodup hkeys

theorem insertPending_perm (call : Pending) : (insertPending pending id call).Perm ((id, call) :: pending) := by
  refine List.perm_middle.trans ?_
  rw [List.takeWhile_append_dropWhile]

theorem insertPending_keys {call : Pending} (hkeys : (pending.map Prod.fst).Nodup)
    (h : findPending pending id = none) : ((insertPending pending id call).map Prod.fst).Nodup := by
  refine ((insertPending_perm call).map Prod.fst).nodup_iff.mpr ?_
  exact List.nodup_cons.mpr ⟨findPending_none h, hkeys⟩

theorem pendingOf_erase {found : Pending} (hkeys : (pending.map Prod.fst).Nodup)
    (h : findPending pending id = some found) (n : Nat) :
    pendingOf pending n = (if found.call = n then 1 else 0) + pendingOf (erasePending pending id) n := by
  have hcount := ((erasePending_perm hkeys h).map fun entry => entry.2.call).count_eq n
  rw [pendingOf, ← hcount, List.map_cons, List.count_cons, pendingOf, Nat.add_comm]
  simp

theorem pendingOf_insert (call : Pending) (n : Nat) :
    pendingOf (insertPending pending id call) n = (if call.call = n then 1 else 0) + pendingOf pending n := by
  have hperm : (insertPending pending id call).Perm ((id, call) :: pending) := insertPending_perm call
  have hcount := (hperm.map fun entry => entry.2.call).count_eq n
  rw [pendingOf, hcount, List.map_cons, List.count_cons, pendingOf, Nat.add_comm]
  simp

end PendingMap

/-! ## One move -/

variable {spec : ServiceSpec} {clientId : UInt64} {s t : Client}

theorem among_append (l l' : List Completion) (n : Nat) : among (l ++ l') n = among l n + among l' n := by
  simp [among, List.count_append]

theorem among_cons (completion : Completion) (l : List Completion) (n : Nat) :
    among (completion :: l) n = (if completion.call = n then 1 else 0) + among l n := by
  simp only [among, List.map_cons, List.count_cons, beq_iff_eq]
  exact Nat.add_comm _ _

@[simp] theorem among_nil (n : Nat) : among [] n = 0 := rfl

/-- One callback, if it is the `n`-th. -/
def oneIf (held : Option Nat) (n : Nat) : Nat := held.toList.count n

@[simp] theorem oneIf_none (n : Nat) : oneIf none n = 0 := rfl

@[simp] theorem oneIf_some (m n : Nat) : oneIf (some m) n = if m = n then 1 else 0 := by
  simp [oneIf, List.count_singleton, beq_iff_eq]

/-- A caller moves on: what it held is exchanged for what it holds now. -/
theorem heldBy_set {calls : List Call} {c : Nat} {call : Call} (new : Call) (h : calls[c]? = some call) (n : Nat) :
    oneIf call.held? n + heldBy (calls.set c new) n = oneIf new.held? n + heldBy calls n := by
  have hcount := (filterMap_set_perm (f := Call.held?) new h).count_eq n
  simpa only [List.count_append, oneIf, heldBy] using hcount

theorem held_searching {call : Call} (h : call.pc.searching = true) : call.held? = some call.ticket := by
  unfold Call.held?
  cases hpc : call.pc <;> simp_all [CallPc.searching]

theorem held_parked {call : Call} {pc : CallPc} (h : pc.parked = true) :
    ({ call with pc := pc } : Call).held? = some call.ticket := by
  unfold Call.held?
  cases pc <;> simp_all [CallPc.parked]

theorem among_dispatcherAfter (rest : List Completion) : (dispatcherAfter rest).completions = rest := by
  unfold dispatcherAfter
  split
  · rename_i h
    simp [DispatcherPc.completions, List.isEmpty_iff.mp h]
  · rfl

theorem Accounted.same (h : Accounted s) (hs : SameCalls s t) : Accounted t := by
  refine ⟨fun n => ?_, ?_, by rw [hs.calls]; exact h.tickets⟩
  · have := h.once n
    unfold places at *
    rw [hs.calls, hs.pending, hs.dispatcher, hs.closer, hs.fired, hs.dropped]
    exact this
  · rw [hs.pending]
    exact h.keys

theorem Accounted.tickets_set (h : Accounted s) {c : Nat} {call new : Call} (hc : s.calls[c]? = some call)
    (ht : new.ticket = call.ticket) : (s.calls.set c new).map Call.ticket = List.range (s.calls.set c new).length := by
  rw [map_set_eq hc ht, List.length_set, h.tickets]

theorem Accounted.set_pc (h : Accounted s) {c : Nat} {call : Call} {pc : CallPc} (hc : s.calls[c]? = some call)
    (hheld : ({ call with pc := pc } : Call).held? = call.held?) : Accounted (setPc s c call pc) := by
  refine ⟨fun n => ?_, h.keys, h.tickets_set hc rfl⟩
  have hset := heldBy_set { call with pc := pc } hc n
  have honce := h.once n
  rw [hheld] at hset
  simp only [places, setPc, setCall, List.length_set] at *
  omega

theorem Accounted.register (h : Accounted s) {c : Nat} {call : Call} (hc : s.calls[c]? = some call)
    (hold : call.held? = some call.ticket) : Accounted (register s c call) := by
  have hset : ∀ n, oneIf call.held? n
      + heldBy (s.calls.set c { call with requestId := some (s.nextRequest + 1), pc := .sending (s.nextRequest + 1) }) n
        = heldBy s.calls n := by
    intro n
    have := heldBy_set { call with requestId := some (s.nextRequest + 1), pc := .sending (s.nextRequest + 1) } hc n
    simpa [Call.held?] using this
  unfold Service.register
  dsimp only
  split
  · refine ⟨fun n => ?_, h.keys, h.tickets_set hc rfl⟩
    have honce := h.once n
    have hset := hset n
    simp only [hold, oneIf_some] at hset
    simp only [places, setCall, List.length_set, List.count_append, List.count_singleton, beq_iff_eq] at *
    omega
  · rename_i hfree
    have hfree : findPending s.pending (s.nextRequest + 1) = none := by simpa using hfree
    refine ⟨fun n => ?_, insertPending_keys h.keys hfree, h.tickets_set hc rfl⟩
    have honce := h.once n
    have hset := hset n
    simp only [hold, oneIf_some] at hset
    simp only [places, setCall, List.length_set, pendingOf_insert] at *
    omega

theorem Accounted.take_back (h : Accounted s) {c : Nat} {call : Call} {id : UInt64} {status : Status}
    (hc : s.calls[c]? = some call) (hpc : call.pc = .sendFailed id status) :
    Accounted (takeBack s c call id status) := by
  have hold : call.held? = none := by simp [Call.held?, hpc]
  unfold takeBack
  split
  · exact h.set_pc hc (by rw [hold]; rfl)
  · rename_i found hfound
    refine ⟨fun n => ?_, erasePending_keys h.keys, h.tickets_set hc rfl⟩
    have hset := heldBy_set { call with pc := .failSend found.call status } hc n
    have herase := pendingOf_erase h.keys hfound n
    have honce := h.once n
    rw [hold] at hset
    simp only [oneIf_none, Call.held?, oneIf_some] at hset
    simp only [places, setPc, setCall, List.length_set] at *
    omega

/-- A caller invokes the callback it holds. -/
theorem Accounted.complete_here (h : Accounted s) {c m : Nat} {call : Call} (hc : s.calls[c]? = some call)
    (hold : call.held? = some m) (result : Result Bytes) (byReply : Bool) :
    Accounted (fire (setPc s c call .returned) ⟨m, result, byReply⟩) := by
  refine ⟨fun n => ?_, h.keys, h.tickets_set hc rfl⟩
  have hset := heldBy_set { call with pc := .returned } hc n
  have honce := h.once n
  rw [hold] at hset
  simp only [oneIf_some, Call.held?, oneIf_none] at hset
  simp only [places, fire, setPc, setCall, List.length_set, among_append, among_cons, among_nil] at *
  omega

theorem Accounted.read_reply (h : Accounted s) {completions : List Completion} (message : Bytes)
    (hpc : s.dispatcher = .reading completions) : Accounted (readReply clientId s message completions) := by
  unfold readReply
  split
  · exact h
  · split
    · exact h
    · split
      · exact h
      · rename_i found hfound
        refine ⟨fun n => ?_, erasePending_keys h.keys, h.tickets⟩
        have herase := pendingOf_erase h.keys hfound n
        have honce := h.once n
        simp only [places, hpc, DispatcherPc.completions, among_append, among_cons, among_nil] at *
        omega

/-- `ExpireLocked` moves the calls it takes, and leaves the others. -/
theorem among_expired (pending : List (UInt64 × Pending)) (why : Pending → Option Status) (n : Nat) :
    among (pending.filterMap fun entry => (why entry.2).map fun status =>
        ⟨entry.2.call, Result.fromStatus status, false⟩) n
      + pendingOf (pending.filter fun entry => (why entry.2).isNone) n = pendingOf pending n := by
  induction pending with
  | nil => rfl
  | cons entry rest ih =>
    cases hwhy : why entry.2 with
    | none =>
      simp only [List.filterMap_cons, hwhy, Option.map_none, List.filter_cons, Option.isNone_none, if_true]
      simp only [pendingOf, List.map_cons, List.count_cons] at *
      omega
    | some status =>
      simp only [List.filterMap_cons, hwhy, Option.map_some, List.filter_cons, Option.isNone_some, among_cons,
        Bool.false_eq_true, if_false]
      simp only [pendingOf, List.map_cons, List.count_cons, beq_iff_eq] at *
      omega

theorem Accounted.expire (h : Accounted s) {completions : List Completion} (reads : List PresenceRead)
    (now liveNow : Int) (hpc : s.dispatcher = .reading completions) :
    Accounted (expire spec s reads now liveNow completions) := by
  unfold Service.expire
  split
  · refine ⟨fun n => ?_, h.keys, h.tickets⟩
    have honce := h.once n
    have hafter := among_dispatcherAfter completions
    unfold dispatcherAfter at hafter
    simp only [places, hpc, hafter] at *
    exact honce
  · have hsame := pollPresence_same s reads
    dsimp only
    refine ⟨fun n => ?_, (List.filter_sublist.map Prod.fst).nodup h.keys, by rw [hsame.calls]; exact h.tickets⟩
    have honce := h.once n
    have hexpired := among_expired s.pending
      (expiry spec (liveServer spec (pollPresence s reads) liveNow).isNone now) n
    have hafter := among_dispatcherAfter (completions ++ s.pending.filterMap fun entry =>
      (expiry spec (liveServer spec (pollPresence s reads) liveNow).isNone now entry.2).map fun status =>
        ⟨entry.2.call, Result.fromStatus status, false⟩)
    unfold dispatcherAfter at hafter
    simp only [places, hpc, hafter, hsame.calls, hsame.closer, hsame.fired, hsame.dropped, among_append] at *
    simp only [DispatcherPc.completions] at *
    omega

theorem step_accounted {move : Move} (h : Accounted s) (hs : step spec clientId s move = some t) : Accounted t := by
  cases transition_of_step hs with
  | call request timeout mayWait now positive =>
    refine ⟨fun n => ?_, h.keys, by simp [h.tickets, List.range_succ]⟩
    have honce := h.once n
    simp only [places, heldBy, List.filterMap_append, List.count_append, List.length_append, List.length_singleton,
      List.filterMap_cons, List.filterMap_nil, Call.held?, List.count_singleton, beq_iff_eq] at *
    grind
  | park attempt thread old same new =>
    refine (h.same same).set_pc (by rw [same.calls]; exact thread) ?_
    rw [held_parked new, held_searching old]
  | register attempt thread old same =>
    exact (h.same same).register (by rw [same.calls]; exact thread) (held_searching old)
  | write status thread pc =>
    refine h.set_pc thread ?_
    by_cases hok : status.isOk = true
    · simp [Call.held?, pc, hok]
    · simp [Call.held?, pc, hok]
  | takeBack thread pc => exact h.take_back thread pc
  | fail thread pc => exact h.complete_here thread (by simp [Call.held?, pc]) _ _
  | failSend thread pc => exact h.complete_here thread (by simp [Call.held?, pc]) _ _
  | dispatcherExits reads pc closed =>
    refine ⟨fun n => ?_, h.keys, h.tickets⟩
    have honce := h.once n
    simp only [places, pc, DispatcherPc.completions] at *
    exact honce
  | dispatcherWakes reads pc closed =>
    have hpolled := h.same (pollPresence_same s reads)
    refine ⟨fun n => ?_, hpolled.keys, hpolled.tickets⟩
    have honce := hpolled.once n
    simp only [places, (pollPresence_same s reads).dispatcher, pc, DispatcherPc.completions] at *
    exact honce
  | dispatcherReads message pc => exact h.read_reply message pc
  | dispatcherExpires reads now liveNow pc => exact h.expire reads now liveNow pc
  | dispatcherRuns pc =>
    refine ⟨fun n => ?_, h.keys, h.tickets⟩
    have honce := h.once n
    simp only [places, pc, DispatcherPc.completions, among_cons] at honce
    show places _ n = if n < s.calls.length then 1 else 0
    simp only [places, fire, among_dispatcherAfter, among_append, among_cons, among_nil]
    omega
  | close pc =>
    refine ⟨fun n => ?_, h.keys, h.tickets⟩
    have honce := h.once n
    simp only [places, pc, CloserPc.completions] at *
    exact honce
  | closeDrains pc joined =>
    refine ⟨fun n => ?_, List.nodup_nil, h.tickets⟩
    have honce := h.once n
    have hcancelled : among (drain spec s).closer.completions n = pendingOf s.pending n := by
      simp only [drain, CloserPc.completions, among, pendingOf, List.map_map, Function.comp_def]
    have hnone : pendingOf (drain spec s).pending n = 0 := rfl
    simp only [places, pc, CloserPc.completions, among_nil] at honce
    show places _ n = if n < s.calls.length then 1 else 0
    simp only [places, hcancelled, hnone]
    simp only [drain]
    omega
  | closeRuns pc =>
    refine ⟨fun n => ?_, h.keys, h.tickets⟩
    have honce := h.once n
    simp only [places, fire, pc, CloserPc.completions, among_append, among_cons, among_nil] at *
    omega
  | closeReturns pc =>
    refine ⟨fun n => ?_, h.keys, h.tickets⟩
    have honce := h.once n
    simp only [places, pc, CloserPc.completions] at *
    exact honce

theorem initial_accounted : Accounted {} := by
  refine ⟨fun n => ?_, List.nodup_nil, rfl⟩
  simp [places, heldBy, pendingOf, DispatcherPc.completions, CloserPc.completions]

theorem reach_accounted {ok : Client → Move → Prop} (h : Reach (step spec clientId) ok IsInitial s) : Accounted s := by
  refine h.invariant ?_ fun s move t hi _ hs => step_accounted hi hs
  rintro s rfl
  exact initial_accounted

/-- Whatever happens, no call is completed twice. -/
theorem Accounted.fired_nodup (h : Accounted s) : (s.fired.map Completion.call).Nodup := by
  refine List.nodup_iff_count_le_one.mpr fun n => ?_
  have honce := h.once n
  have hle : among s.fired n ≤ places s n := by
    unfold places
    omega
  rw [honce] at hle
  refine Nat.le_trans hle ?_
  split
  · exact Nat.le_refl 1
  · exact Nat.zero_le 1

/-! ## Nobody is left behind -/

/-- `Close` is past its drain of the pending calls. -/
def drained (s : Client) : Bool :=
  match s.closer with
  | .running _ => true
  | .returned => true
  | _ => false

/--
No write succeeds for a call that is pending after the drain, and `++next_request` never
reaches the id of a call that is still pending.
-/
def completable (s : Client) (move : Move) : Prop :=
  (move.attempts = true → findPending s.pending (s.nextRequest + 1) = none)
    ∧ ∀ c status call id, move = .write c status → status.isOk = true → s.calls[c]? = some call →
      call.pc = .sending id → drained s = true → findPending s.pending id = none

/-- The caller of a registered call has not returned yet. -/
def CallPc.watches (pc : CallPc) (id : UInt64) : Prop := pc = .sending id ∨ ∃ status, pc = .sendFailed id status

structure Watched (s : Client) : Prop where
  kept : s.dropped = []
  joined : drained s = true → s.dispatcher = .exited
  watched : drained s = true → ∀ entry ∈ s.pending, ∃ call ∈ s.calls, call.pc.watches entry.1

/-- A caller that holds a callback watches nothing. -/
theorem not_watches_of_held {call : Call} {m : Nat} {id : UInt64} (h : call.held? = some m) : ¬ call.pc.watches id := by
  intro h
  rcases h with heq | ⟨status, heq⟩
  · simp [Call.held?, heq] at h
  · simp [Call.held?, heq] at h

theorem Watched.same (h : Watched s) (hs : SameCalls s t) : Watched t := by
  have hd : drained t = drained s := by
    unfold drained
    rw [hs.closer]
  refine ⟨hs.dropped.trans h.kept, fun ht => ?_, fun ht => ?_⟩
  · rw [hs.dispatcher]
    exact h.joined (hd.symm.trans ht)
  · rw [hs.pending, hs.calls]
    exact h.watched (hd.symm.trans ht)

/-- A caller moves on, and nothing pending was left to it alone. -/
theorem Watched.set_call (h : Watched s) {c : Nat} {call new : Call} (hc : s.calls[c]? = some call)
    (hw : ∀ entry ∈ s.pending, call.pc.watches entry.1 → new.pc.watches entry.1) : Watched (setCall s c new) := by
  refine ⟨h.kept, h.joined, fun hd entry hentry => ?_⟩
  obtain ⟨w, hmem, hwatch⟩ := h.watched hd entry hentry
  by_cases heq : w = call
  · exact ⟨new, mem_set_new new hc, hw entry hentry (heq ▸ hwatch)⟩
  · exact ⟨w, mem_set_other new hc hmem heq, hwatch⟩

theorem Watched.register (h : Watched s) {c : Nat} {call : Call} (hc : s.calls[c]? = some call)
    (hold : call.pc.searching = true) (hfree : findPending s.pending (s.nextRequest + 1) = none) :
    Watched (register s c call) := by
  unfold Service.register
  simp only [hfree, Option.isSome_none, Bool.false_eq_true, if_false]
  refine ⟨h.kept, h.joined, fun hd entry hentry => ?_⟩
  rcases List.mem_cons.mp ((insertPending_perm _).mem_iff.mp hentry) with rfl | hentry
  · exact ⟨_, mem_set_new _ hc, .inl rfl⟩
  · obtain ⟨w, hmem, hwatch⟩ := h.watched hd entry hentry
    refine ⟨w, mem_set_other _ hc hmem ?_, hwatch⟩
    rintro rfl
    exact not_watches_of_held (held_searching hold) hwatch

theorem Watched.take_back (h : Watched s) {c : Nat} {call : Call} {id : UInt64} {status : Status}
    (hc : s.calls[c]? = some call) (hpc : call.pc = .sendFailed id status) : Watched (takeBack s c call id status) := by
  have honly : ∀ key, call.pc.watches key → key = id := by
    intro key h
    rcases h with heq | ⟨status', heq⟩
    · cases hpc.symm.trans heq
    · cases hpc.symm.trans heq
      rfl
  unfold takeBack
  split
  · rename_i hnone
    refine h.set_call hc fun entry hentry hwatch => ?_
    have := honly _ hwatch
    exact absurd (this ▸ List.mem_map_of_mem (f := Prod.fst) hentry) (findPending_none hnone)
  · have herased : Watched { s with pending := erasePending s.pending id } :=
      ⟨h.kept, h.joined, fun hd entry hentry => h.watched hd entry (List.mem_of_mem_filter hentry)⟩
    refine herased.set_call hc fun entry hentry hwatch => ?_
    have hne : entry.1 ≠ id := by simpa using (List.mem_filter.mp hentry).2
    exact absurd (honly _ hwatch) hne

/-- While the dispatcher is there, `Close` has not drained anything. -/
theorem Watched.before_drain (h : Watched s) (hd : s.dispatcher ≠ .exited) : drained s = false := by
  cases hdr : drained s with
  | false => rfl
  | true => exact absurd (h.joined hdr) hd

theorem Watched.undrained (hkept : t.dropped = []) (hd : drained t = false) : Watched t := by
  refine ⟨hkept, fun ht => ?_, fun ht => ?_⟩
  · rw [hd] at ht
    cases ht
  · rw [hd] at ht
    cases ht

theorem step_watched {move : Move} (h : Watched s) (hok : completable s move)
    (hs : step spec clientId s move = some t) : Watched t := by
  cases transition_of_step hs with
  | call request timeout mayWait now positive =>
    refine ⟨h.kept, h.joined, fun hd entry hentry => ?_⟩
    obtain ⟨w, hmem, hwatch⟩ := h.watched hd entry hentry
    exact ⟨w, List.mem_append_left _ hmem, hwatch⟩
  | park attempt thread old same new =>
    refine (h.same same).set_call (by rw [same.calls]; exact thread) fun entry _ hwatch => ?_
    exact absurd hwatch (not_watches_of_held (held_searching old))
  | register attempt thread old same =>
    refine (h.same same).register (by rw [same.calls]; exact thread) old ?_
    rw [same.pending, same.nextRequest]
    exact hok.1 attempt
  | @write c call id status thread pc =>
    by_cases hst : status.isOk = true
    · rw [if_pos hst]
      refine ⟨h.kept, h.joined, fun hd => ?_⟩
      have hnone := hok.2 c status call id rfl hst thread pc hd
      refine (h.set_call thread fun entry hentry hwatch => ?_).watched hd
      have hkey : entry.1 = id := by
        rcases hwatch with heq | ⟨status', heq⟩
        · cases pc.symm.trans heq
          rfl
        · cases pc.symm.trans heq
      exact absurd (hkey ▸ List.mem_map_of_mem (f := Prod.fst) hentry) (findPending_none hnone)
    · rw [if_neg hst]
      refine h.set_call thread fun entry _ hwatch => ?_
      rcases hwatch with heq | ⟨status', heq⟩
      · cases pc.symm.trans heq
        exact .inr ⟨status, rfl⟩
      · cases pc.symm.trans heq
  | takeBack thread pc => exact h.take_back thread pc
  | @fail c call status thread pc =>
    have hold : call.held? = some call.ticket := by simp [Call.held?, pc]
    have hset : Watched (setPc s c call .returned) :=
      h.set_call thread fun entry _ hwatch => absurd hwatch (not_watches_of_held hold)
    exact ⟨hset.kept, hset.joined, hset.watched⟩
  | @failSend c owner call status thread pc =>
    have hold : call.held? = some owner := by simp [Call.held?, pc]
    have hset : Watched (setPc s c call .returned) :=
      h.set_call thread fun entry _ hwatch => absurd hwatch (not_watches_of_held hold)
    exact ⟨hset.kept, hset.joined, hset.watched⟩
  | dispatcherExits reads pc closed => exact ⟨h.kept, fun _ => rfl, h.watched⟩
  | dispatcherWakes reads pc closed =>
    have hsame := pollPresence_same s reads
    have hd := h.before_drain (by simp [pc])
    refine Watched.undrained (hsame.dropped.trans h.kept) ?_
    unfold drained at hd ⊢
    simpa only [hsame.closer] using hd
  | dispatcherReads message pc =>
    have hd := h.before_drain (by simp [pc])
    unfold readReply
    split
    · exact h
    · split
      · exact h
      · split
        · exact h
        · exact Watched.undrained h.kept hd
  | dispatcherExpires reads now liveNow pc =>
    have hd := h.before_drain (by simp [pc])
    have hsame := pollPresence_same s reads
    unfold expire
    split
    · exact Watched.undrained h.kept hd
    · refine Watched.undrained (hsame.dropped.trans h.kept) ?_
      unfold drained at hd ⊢
      simpa only [hsame.closer] using hd
  | dispatcherRuns pc =>
    have hd := h.before_drain (by simp [pc])
    exact Watched.undrained h.kept hd
  | close pc => exact Watched.undrained h.kept rfl
  | closeDrains pc joined => exact ⟨h.kept, fun _ => joined, fun _ entry hentry => (by cases hentry)⟩
  | closeRuns pc =>
    have hd : drained s = true := by simp [drained, pc]
    exact ⟨h.kept, fun _ => h.joined hd, fun _ => h.watched hd⟩
  | closeReturns pc =>
    have hd : drained s = true := by simp [drained, pc]
    exact ⟨h.kept, fun _ => h.joined hd, fun _ => h.watched hd⟩

/-! ## Exactly once -/

/-- `Close` has returned, and so has every caller from `Start`. -/
def Over (s : Client) : Prop := s.closer = .returned ∧ ∀ call ∈ s.calls, call.pc = .returned

/-- When all is over, every callback has been invoked. -/
theorem Accounted.over (h : Accounted s) (hw : Watched s) (hover : Over s) {n : Nat} (hn : n < s.calls.length) :
    (s.fired.map Completion.call).count n = 1 := by
  have hd : drained s = true := by simp [drained, hover.1]
  have hheld : s.calls.filterMap Call.held? = [] := by
    refine List.filterMap_eq_nil_iff.mpr fun call hcall => ?_
    simp [Call.held?, hover.2 call hcall]
  have hpending : s.pending = [] := by
    refine List.eq_nil_iff_forall_not_mem.mpr fun entry hentry => ?_
    obtain ⟨call, hcall, hwatch⟩ := hw.watched hd entry hentry
    rw [hover.2 call hcall] at hwatch
    rcases hwatch with heq | ⟨status, heq⟩
    · cases heq
    · cases heq
  have honce := h.once n
  simp only [places, heldBy, hheld, pendingOf, hpending, hw.joined hd, hover.1, hw.kept, DispatcherPc.completions,
    CloserPc.completions, among_nil, List.map_nil, List.count_nil, if_pos hn] at honce
  unfold among at honce
  omega

theorem every_call_completes_once (h : Reach (step spec clientId) completable IsInitial s) :
    (s.fired.map Completion.call).Nodup
      ∧ (Over s → ∀ (n : Nat) (call : Call), s.calls[n]? = some call →
        call.ticket = n ∧ (s.fired.map Completion.call).count call.ticket = 1) := by
  have hacc := reach_accounted h
  have hwatched : Watched s := by
    refine h.invariant ?_ fun s move t hi hok hs => step_watched hi hok hs
    rintro s rfl
    exact Watched.undrained rfl rfl
  refine ⟨hacc.fired_nodup, fun hover n call hcall => ?_⟩
  obtain ⟨hn, hget⟩ := List.getElem?_eq_some_iff.mp hcall
  have hticket : call.ticket = n := by
    have := congrArg (fun l => l[n]?) hacc.tickets
    simpa [hn, hget] using this
  rw [hticket]
  exact ⟨rfl, hacc.over hwatched hover hn⟩

/-! ## A call left behind -/

def demoSpec : ServiceSpec := ⟨[109, 97, 112], 100000000⟩

/-- A heartbeat of server 7. -/
def heartbeat : PresenceRead := ⟨putU64 7 ++ putU64 1, 0⟩

/-- The caller sees the server's heartbeat, but its request reader is not matched yet. -/
def parkedCaller : List Move :=
  [.call [1] 1000000000 true 0, .search 0 0 { reads := [heartbeat], matched := some 0 }]

/-- `Close`, from the first section to its return, with nothing pending. -/
def closeAll : List Move := [.close, .dispatcherWakes [], .closeDrains, .closeRuns]

/-- All is over, and no call was completed. -/
def leftBehind (s : Client) : Bool :=
  decide (s.closer = .returned) && s.calls.all (fun call => call.pc = .returned) && decide (s.calls.length = 1)
    && s.fired.isEmpty

theorem a_parked_caller_is_left_behind :
    ∃ s, Reach (step demoSpec 5) anyMove IsInitial s ∧ Over s ∧ s.calls.length = 1 ∧ s.fired = [] := by
  obtain ⟨s, hs, hp⟩ : ∃ s, Reach (step demoSpec 5) anyMove IsInitial s ∧ leftBehind s = true :=
    reach_of_run (parkedCaller ++ closeAll ++ [.matched 0 {}, .write 0 .ok]) _ rfl (by decide +kernel)
  simp only [leftBehind, Bool.and_eq_true, decide_eq_true_eq, List.all_eq_true, List.isEmpty_iff] at hp
  obtain ⟨⟨⟨hclosed, hcalls⟩, hone⟩, hnone⟩ := hp
  exact ⟨s, hs, ⟨hclosed, hcalls⟩, hone, hnone⟩

def completableCheck (s : Client) : Move → Bool
  | .search _ _ _ => (findPending s.pending (s.nextRequest + 1)).isNone
  | .matched _ _ => (findPending s.pending (s.nextRequest + 1)).isNone
  | .write _ status => !status.isOk || !drained s
  | _ => true

theorem completableCheck_sound (s : Client) (move : Move) (h : completableCheck s move = true) : completable s move := by
  refine ⟨fun hattempt => ?_, ?_⟩
  · cases move <;> simp_all [Move.attempts, completableCheck]
  · rintro c status call id rfl hok - - hd
    simp [completableCheck, hok, hd] at h

/-- A caller that registers before the drain is told by `Close`, also when its write fails. -/
theorem a_closed_call_is_cancelled_once :
    ∃ s, s.calls.length = 2 ∧ Over s ∧ (s.fired.map Completion.call).count 0 = 1
      ∧ (s.fired.map Completion.call).count 1 = 1 := by
  obtain ⟨s, hs, hp⟩ : ∃ s, Reach (step demoSpec 5) completable IsInitial s
      ∧ (decide (s.closer = .returned) && s.calls.all (fun call => call.pc = .returned)
        && decide (s.calls.map Call.ticket = [0, 1])) = true :=
    reach_of_check completableCheck
      (parkedCaller ++ [.matched 0 {}, .write 0 .ok, .call [2] 1000000000 true 0, .search 1 0 {}, .close,
        .dispatcherWakes [], .closeDrains, .write 1 (.error .unavailable []), .closeRuns, .closeRuns, .takeBack 1,
        .closeRuns])
      _ completableCheck_sound rfl (by decide +kernel)
  simp only [Bool.and_eq_true, decide_eq_true_eq, List.all_eq_true] at hp
  obtain ⟨⟨hclosed, hcalls⟩, htickets⟩ := hp
  have hover : Over s := ⟨hclosed, hcalls⟩
  have hlen : s.calls.length = 2 := by simpa using congrArg List.length htickets
  have honce := (every_call_completes_once hs).2 hover
  obtain ⟨h0, hc0⟩ := honce 0 _ (List.getElem?_eq_getElem (by omega))
  obtain ⟨h1, hc1⟩ := honce 1 _ (List.getElem?_eq_getElem (by omega))
  rw [h0] at hc0
  rw [h1] at hc1
  exact ⟨s, hlen, hover, hc0, hc1⟩

end PuppetMaster.Service
