/-
  PuppetMaster.Service.RequestIds — the ids and the completions of one client's calls.

  `CallsStep` is what a move can do to the calls and the pending map. `Numbered`: the
  calls that registered carry the values `next_request` went through, and a pending entry
  belongs to the call that registered under its key. Up to 2^64 calls those values are
  distinct (`Numbered.distinct`); the next call repeats one.

  A completion that carries a reply was made by the dispatcher when it read that reply
  (`completions_of_step`), for the call that was pending under the reply's id.
-/

import Mathlib.Data.List.Nodup
import PuppetMaster.Lib.Lists
import PuppetMaster.Service.ExactlyOnce

namespace PuppetMaster.Service

open PuppetMaster.Core PuppetMaster.Lib

variable {spec : ServiceSpec} {clientId : UInt64}

/-! ## The calls of one client -/

/-- What a move does to the calls, the counter and the pending map. -/
inductive CallsStep (move : Move) (s t : Client) : Prop
  | same (calls : t.calls = s.calls) (next : t.nextRequest = s.nextRequest) (pending : ∀ e ∈ t.pending, e ∈ s.pending)
  | enter (new : Call) (entry : ∃ request timeout mayWait now, move = .call request timeout mayWait now)
      (calls : t.calls = s.calls ++ [new]) (pc : new.pc = .entered) (id : new.requestId = none)
      (next : t.nextRequest = s.nextRequest) (pending : ∀ e ∈ t.pending, e ∈ s.pending)
  | move (c : Nat) (call : Call) (pc : CallPc) (thread : s.calls[c]? = some call)
      (calls : t.calls = s.calls.set c { call with pc := pc }) (written : ∀ id, pc ≠ .sending id)
      (searching : pc.searching = true → call.pc.searching = true)
      (next : t.nextRequest = s.nextRequest) (pending : ∀ e ∈ t.pending, e ∈ s.pending)
  | register (c : Nat) (call : Call) (thread : s.calls[c]? = some call) (old : call.pc.searching = true)
      (calls : t.calls = s.calls.set c
        { call with requestId := some (s.nextRequest + 1), pc := .sending (s.nextRequest + 1) })
      (next : t.nextRequest = s.nextRequest + 1)
      (pending : ∀ e ∈ t.pending, e ∈ s.pending ∨ (e.1 = s.nextRequest + 1 ∧ e.2.call = call.ticket))

theorem mem_insertPending {pending : List (UInt64 × Pending)} {id : UInt64} {call : Pending} {e : UInt64 × Pending}
    (h : e ∈ insertPending pending id call) : e ∈ pending ∨ e = (id, call) := by
  rcases List.mem_append.mp h with h | h
  · exact .inl ((List.takeWhile_sublist _).subset h)
  · rcases List.mem_cons.mp h with h | h
    · exact .inr h
    · exact .inl ((List.dropWhile_sublist _).subset h)

theorem callsStep_of_step {s t : Client} {move : Move} (h : step spec clientId s move = some t) :
    CallsStep move s t := by
  have hpoll := pollPresence_same s
  cases transition_of_step h with
  | call request timeout mayWait now positive =>
    exact .enter _ ⟨request, timeout, mayWait, now, rfl⟩ rfl rfl rfl rfl fun _ he => he
  | @park move c call polled pc attempt thread old same new =>
    refine .move c call pc thread (by rw [setPc, setCall, same.calls]) ?_ (fun _ => old) same.nextRequest ?_
    · rintro id rfl
      cases new
    · intro e he
      rw [← same.pending]
      exact he
  | @register move c call polled attempt thread old same =>
    have hnext := same.nextRequest
    refine .register c call thread old (by rw [register_calls, hnext, same.calls])
      (by rw [register_nextRequest, hnext]) fun e he => ?_
    unfold register at he
    dsimp only at he
    split at he
    · exact .inl (same.pending ▸ he)
    · rcases mem_insertPending he with he | rfl
      · exact .inl (same.pending ▸ he)
      · exact .inr ⟨by rw [hnext], rfl⟩
  | @write c call id status thread pc =>
    refine .move c call _ thread rfl ?_ ?_ rfl fun _ he => he
    · intro id'
      split
      · simp
      · simp
    · split
      · intro hs
        cases hs
      · intro hs
        cases hs
  | @takeBack c call id status thread pc =>
    unfold takeBack
    split
    · exact .move c call _ thread rfl (fun _ => by simp) (fun hs => (by cases hs)) rfl fun _ he => he
    · exact .move c call _ thread rfl (fun _ => by simp) (fun hs => (by cases hs)) rfl
        fun _ he => List.mem_of_mem_filter he
  | fail thread pc => exact .move _ _ _ thread rfl (fun _ => by simp) (fun hs => (by cases hs)) rfl fun _ he => he
  | failSend thread pc => exact .move _ _ _ thread rfl (fun _ => by simp) (fun hs => (by cases hs)) rfl fun _ he => he
  | dispatcherExits reads pc closed => exact .same rfl rfl fun _ he => he
  | dispatcherWakes reads pc closed =>
    refine .same (hpoll reads).calls (hpoll reads).nextRequest fun e he => ?_
    rw [← (hpoll reads).pending]
    exact he
  | dispatcherReads message pc =>
    unfold readReply
    split
    · exact .same rfl rfl fun _ he => he
    · split
      · exact .same rfl rfl fun _ he => he
      · split
        · exact .same rfl rfl fun _ he => he
        · exact .same rfl rfl fun _ he => List.mem_of_mem_filter he
  | dispatcherExpires reads now liveNow pc =>
    unfold expire
    split
    · exact .same rfl rfl fun _ he => he
    · exact .same (hpoll reads).calls (hpoll reads).nextRequest fun _ he => List.mem_of_mem_filter he
  | dispatcherRuns pc => exact .same rfl rfl fun _ he => he
  | close pc => exact .same rfl rfl fun _ he => he
  | closeDrains pc joined => exact .same rfl rfl fun _ he => (by cases he)
  | closeRuns pc => exact .same rfl rfl fun _ he => he
  | closeReturns pc => exact .same rfl rfl fun _ he => he

theorem CallsStep.calls_length {s t : Client} {move : Move} (h : CallsStep move s t) :
    t.calls.length = s.calls.length
      ∨ ∃ request timeout mayWait now, move = .call request timeout mayWait now
        ∧ t.calls.length = s.calls.length + 1 := by
  cases h with
  | same calls next pending => exact .inl (by rw [calls])
  | enter new entry calls pc id next pending =>
    obtain ⟨request, timeout, mayWait, now, hmove⟩ := entry
    exact .inr ⟨request, timeout, mayWait, now, hmove, by simp [calls]⟩
  | move c call pc thread calls written searching next pending => exact .inl (by simp [calls])
  | register c call thread old calls next pending => exact .inl (by simp [calls])

/-! ## Request ids -/

def requestIds (s : Client) : List UInt64 := s.calls.filterMap Call.requestId

structure Numbered (s : Client) : Prop where
  next : s.nextRequest = UInt64.ofNat (requestIds s).length
  ids : (requestIds s).Perm ((List.range (requestIds s).length).map fun j => UInt64.ofNat (j + 1))
  searching : ∀ call ∈ s.calls, call.pc.searching = true → call.requestId = none
  sending : ∀ call ∈ s.calls, ∀ id, call.pc = .sending id → call.requestId = some id
  owners : ∀ e ∈ s.pending, ∃ call ∈ s.calls, call.ticket = e.2.call ∧ call.requestId = some e.1

theorem initial_numbered : Numbered {} :=
  ⟨rfl, List.Perm.nil, fun _ h => (by cases h), fun _ h => (by cases h), fun _ h => (by cases h)⟩

/-- A registered call stays, with its id and its request, and does not write again. -/
theorem CallsStep.keeps {s t : Client} {move : Move} (h : CallsStep move s t) (hn : Numbered s) {call : Call} {id : UInt64}
    (hmem : call ∈ s.calls) (hid : call.requestId = some id) :
    ∃ call' ∈ t.calls, call'.ticket = call.ticket ∧ call'.requestId = some id ∧ call'.request = call.request
      ∧ call'.timeout = call.timeout ∧ (call.pc ≠ .sending id → call'.pc ≠ .sending id) := by
  cases h with
  | same calls next pending => exact ⟨call, calls ▸ hmem, rfl, hid, rfl, rfl, fun hpc => hpc⟩
  | enter new entry calls pc fresh next pending =>
    refine ⟨call, ?_, rfl, hid, rfl, rfl, fun hpc => hpc⟩
    rw [calls]
    exact List.mem_append_left _ hmem
  | move c old pc thread calls written searching next pending =>
    by_cases heq : call = old
    · subst heq
      refine ⟨{ call with pc := pc }, ?_, rfl, hid, rfl, rfl, fun _ => written id⟩
      rw [calls]
      exact mem_set_new _ thread
    · refine ⟨call, ?_, rfl, hid, rfl, rfl, fun hpc => hpc⟩
      rw [calls]
      exact mem_set_other _ thread hmem heq
  | register c old thread searching calls next pending =>
    refine ⟨call, ?_, rfl, hid, rfl, rfl, fun hpc => hpc⟩
    rw [calls]
    refine mem_set_other _ thread hmem ?_
    rintro rfl
    rw [hn.searching call hmem searching] at hid
    cases hid

theorem mem_of_set {α : Type} {l : List α} {i : Nat} {new a : α} (h : a ∈ l.set i new) : a = new ∨ a ∈ l :=
  (List.mem_or_eq_of_mem_set h).symm

theorem CallsStep.numbered {s t : Client} {move : Move} (h : CallsStep move s t) (hn : Numbered s) : Numbered t := by
  have hkeep : ∀ e ∈ s.pending, ∃ call ∈ t.calls, call.ticket = e.2.call ∧ call.requestId = some e.1 := by
    intro e he
    obtain ⟨call, hmem, hticket, hid⟩ := hn.owners e he
    obtain ⟨call', hmem', hticket', hid', -⟩ := h.keeps hn hmem hid
    exact ⟨call', hmem', hticket'.trans hticket, hid'⟩
  cases h with
  | same calls next pending =>
    have hids : requestIds t = requestIds s := by rw [requestIds, calls, requestIds]
    refine ⟨by rw [next, hids]; exact hn.next, by rw [hids]; exact hn.ids, ?_, ?_, fun e he => hkeep e (pending e he)⟩
    · rw [calls]; exact hn.searching
    · rw [calls]; exact hn.sending
  | enter new entry calls pc fresh next pending =>
    have hids : requestIds t = requestIds s := by simp [requestIds, calls, fresh]
    refine ⟨by rw [next, hids]; exact hn.next, by rw [hids]; exact hn.ids, ?_, ?_, fun e he => hkeep e (pending e he)⟩
    · intro call hcall hs
      rw [calls] at hcall
      rcases List.mem_append.mp hcall with hcall | hcall
      · exact hn.searching call hcall hs
      · rw [List.mem_singleton.mp hcall]
        exact fresh
    · intro call hcall id hpc
      rw [calls] at hcall
      rcases List.mem_append.mp hcall with hcall | hcall
      · exact hn.sending call hcall id hpc
      · rw [List.mem_singleton.mp hcall, pc] at hpc
        cases hpc
  | move c old pc thread calls written searching next pending =>
    have hids : requestIds t = requestIds s := by
      rw [requestIds, calls]
      exact filterMap_set_eq thread rfl
    refine ⟨by rw [next, hids]; exact hn.next, by rw [hids]; exact hn.ids, ?_, ?_, fun e he => hkeep e (pending e he)⟩
    · intro call hcall hs
      rw [calls] at hcall
      rcases mem_of_set hcall with rfl | hcall
      · exact hn.searching old (List.mem_of_getElem? thread) (searching hs)
      · exact hn.searching call hcall hs
    · intro call hcall id hpc
      rw [calls] at hcall
      rcases mem_of_set hcall with rfl | hcall
      · exact absurd hpc (written id)
      · exact hn.sending call hcall id hpc
  | register c old thread searching calls next pending =>
    have hold : old.requestId = none := hn.searching old (List.mem_of_getElem? thread) searching
    have hids : (requestIds t).Perm ((s.nextRequest + 1) :: requestIds s) := by
      have hset := filterMap_set_perm (f := Call.requestId)
        { old with requestId := some (s.nextRequest + 1), pc := .sending (s.nextRequest + 1) } thread
      rw [hold, ← calls] at hset
      exact hset
    have hlen : (requestIds t).length = (requestIds s).length + 1 := hids.length_eq
    have hnext : s.nextRequest + 1 = UInt64.ofNat ((requestIds s).length + 1) := by
      rw [hn.next, UInt64.ofNat_add]
      rfl
    refine ⟨?_, ?_, ?_, ?_, ?_⟩
    · rw [next, hlen, hnext]
    · rw [hlen, List.range_succ, List.map_append, List.map_singleton, ← hnext]
      exact hids.trans ((hn.ids.cons _).trans (List.perm_append_singleton _ _).symm)
    · intro call hcall hs
      rw [calls] at hcall
      rcases mem_of_set hcall with rfl | hcall
      · cases hs
      · exact hn.searching call hcall hs
    · intro call hcall id hpc
      rw [calls] at hcall
      rcases mem_of_set hcall with rfl | hcall
      · cases hpc
        rfl
      · exact hn.sending call hcall id hpc
    · intro e he
      rcases pending e he with he | ⟨hkey, hticket⟩
      · exact hkeep e he
      · rw [calls]
        exact ⟨_, mem_set_new _ thread, hticket.symm, by rw [hkey]⟩

/-- Up to 2^64 calls, no two of them have the same id. -/
theorem Numbered.distinct {s : Client} (h : Numbered s) (hfew : s.calls.length ≤ 2 ^ 64) : (requestIds s).Nodup := by
  have hle : (requestIds s).length ≤ 2 ^ 64 := Nat.le_trans (List.length_filterMap_le _ _) hfew
  refine h.ids.nodup_iff.mpr (List.Nodup.map_on ?_ List.nodup_range)
  intro i hi j hj heq
  have hi := List.mem_range.mp hi
  have hj := List.mem_range.mp hj
  have := congrArg UInt64.toNat heq
  simp only [UInt64.toNat_ofNat'] at this
  omega

/-- With one more, two do. -/
theorem Numbered.repeats {s : Client} (h : Numbered s) (hmany : 2 ^ 64 < (requestIds s).length) :
    ¬ (requestIds s).Nodup := by
  intro hnodup
  have hnodup := h.ids.nodup_iff.mp hnodup
  have hzero : 0 ∈ List.range (requestIds s).length := List.mem_range.mpr (by omega)
  have hlast : 2 ^ 64 ∈ List.range (requestIds s).length := List.mem_range.mpr hmany
  have heq : UInt64.ofNat (0 + 1) = UInt64.ofNat (2 ^ 64 + 1) := by
    apply UInt64.toNat_inj.mp
    simp
  have := List.inj_on_of_nodup_map hnodup hzero hlast heq
  omega

theorem unique_call {calls : List Call} (h : (calls.filterMap Call.requestId).Nodup) {a b : Call} {id : UInt64}
    (ha : a ∈ calls) (hb : b ∈ calls) (hia : a.requestId = some id) (hib : b.requestId = some id) : a = b := by
  induction calls with
  | nil => cases ha
  | cons call rest ih =>
    rw [filterMap_cons_append] at h
    have hrest := (List.nodup_append.mp h).2.1
    have happart := (List.nodup_append.mp h).2.2
    have hnot : call.requestId = some id → ∀ other ∈ rest, other.requestId ≠ some id := by
      intro hcall other hother hio
      refine happart id (by simp [hcall]) id ?_ rfl
      exact List.mem_filterMap.mpr ⟨other, hother, hio⟩
    rcases List.mem_cons.mp ha with rfl | ha'
    · rcases List.mem_cons.mp hb with rfl | hb'
      · rfl
      · exact absurd hib (hnot hia b hb')
    · rcases List.mem_cons.mp hb with rfl | hb'
      · exact absurd hia (hnot hib a ha')
      · exact ih hrest ha' hb'

/-! ## Completions made from replies -/

def completionsOf (s : Client) : List Completion := s.dispatcher.completions ++ (s.closer.completions ++ s.fired)

/-- The completion that a reply makes, if it makes one. -/
def FromReply (clientId : UInt64) (s : Client) (message : Bytes) (x : Completion) : Prop :=
  ∃ header payload found, decode message replyMagic = some (header, payload) ∧ header.clientId = clientId
    ∧ findPending s.pending header.requestId = some found ∧ x = ⟨found.call, replyResult header payload, true⟩

theorem mem_completionsOf {s : Client} {x : Completion} :
    x ∈ completionsOf s ↔ x ∈ s.dispatcher.completions ∨ x ∈ s.closer.completions ∨ x ∈ s.fired := by
  simp [completionsOf]

/-- Reading a message completes one call, or none. -/
theorem completions_of_read {s t : Client} {message : Bytes}
    (h : step spec clientId s (.dispatcherReads message) = some t) :
    completionsOf t = completionsOf s
      ∨ ∃ x, FromReply clientId s message x ∧ (completionsOf t).Perm (x :: completionsOf s) := by
  cases transition_of_step h with
  | park attempt => cases attempt
  | register attempt => cases attempt
  | dispatcherReads message pc =>
    unfold readReply
    split
    · exact .inl rfl
    · rename_i header payload hdecode
      split
      · exact .inl rfl
      · rename_i hclient
        split
        · exact .inl rfl
        · rename_i found hfound
          refine .inr ⟨_, ⟨header, payload, found, hdecode, by simpa using hclient, hfound, rfl⟩, ?_⟩
          rw [completionsOf, completionsOf, pc]
          simp only [DispatcherPc.completions, List.append_assoc, List.singleton_append]
          exact List.perm_middle

/-- A completion without a reply, with the error of its call. -/
def Failed (x : Completion) : Prop := x.byReply = false ∧ ∃ status, x.result = .error status

/-- A new completion is an error, or comes from a reply in the read loop of the dispatcher. -/
theorem completions_of_any_step {s t : Client} {move : Move} (h : step spec clientId s move = some t) {x : Completion}
    (hx : x ∈ completionsOf t) :
    x ∈ completionsOf s ∨ (∃ message, move = .dispatcherReads message ∧ FromReply clientId s message x) ∨ Failed x := by
  have hpoll := pollPresence_same s
  have hsame : ∀ {u : Client}, x ∈ completionsOf u → u.dispatcher.completions = s.dispatcher.completions →
      u.closer.completions = s.closer.completions → u.fired = s.fired → x ∈ completionsOf s := by
    intro u hu h1 h2 h3
    rw [completionsOf, h1, h2, h3] at hu
    exact hu
  have hfired : ∀ {u : Client} {y : Completion}, x ∈ completionsOf u → u.fired = s.fired ++ [y] → Failed y →
      u.dispatcher.completions = s.dispatcher.completions → u.closer.completions = s.closer.completions →
      x ∈ completionsOf s ∨ Failed x := by
    intro u y hu h3 hy h1 h2
    rw [mem_completionsOf, h1, h2, h3, List.mem_append, List.mem_singleton] at hu
    rw [mem_completionsOf]
    rcases hu with hu | hu | hu | rfl
    · exact .inl (.inl hu)
    · exact .inl (.inr (.inl hu))
    · exact .inl (.inr (.inr hu))
    · exact .inr hy
  cases transition_of_step h with
  | call request timeout mayWait now positive => exact .inl (hsame hx rfl rfl rfl)
  | park attempt thread old same new =>
    exact .inl (hsame hx (congrArg _ same.dispatcher) (congrArg _ same.closer) same.fired)
  | @register move c call polled attempt thread old same =>
    obtain ⟨hdispatcher, hcloser, hfired, -⟩ := register_others polled c call
    refine .inl (hsame hx ?_ ?_ (hfired.trans same.fired))
    · rw [hdispatcher, same.dispatcher]
    · rw [hcloser, same.closer]
  | write status thread pc => exact .inl (hsame hx rfl rfl rfl)
  | takeBack thread pc =>
    unfold takeBack at hx
    split at hx
    · exact .inl (hsame hx rfl rfl rfl)
    · exact .inl (hsame hx rfl rfl rfl)
  | fail thread pc => exact (hfired hx rfl ⟨rfl, _, rfl⟩ rfl rfl).imp_right .inr
  | failSend thread pc => exact (hfired hx rfl ⟨rfl, _, rfl⟩ rfl rfl).imp_right .inr
  | dispatcherExits reads pc closed => exact .inl (hsame hx (by rw [pc]; rfl) rfl rfl)
  | dispatcherWakes reads pc closed =>
    exact .inl (hsame hx (by rw [pc]; rfl) (congrArg _ (hpoll reads).closer) (hpoll reads).fired)
  | dispatcherReads message pc =>
    rcases completions_of_read h with heq | ⟨y, hy, hperm⟩
    · exact .inl (heq ▸ hx)
    · rcases List.mem_cons.mp (hperm.mem_iff.mp hx) with rfl | hx
      · exact .inr (.inl ⟨message, rfl, hy⟩)
      · exact .inl hx
  | @dispatcherExpires completions reads now liveNow pc =>
    unfold expire at hx
    split at hx
    · refine .inl (hsame hx ?_ rfl rfl)
      rw [pc]
      exact among_dispatcherAfter completions
    · dsimp only at hx
      rw [mem_completionsOf] at hx
      rcases hx with hx | hx | hx
      · have hafter := among_dispatcherAfter (completions ++ s.pending.filterMap fun entry =>
          (expiry spec (liveServer spec (pollPresence s reads) liveNow).isNone now entry.2).map fun status =>
            ⟨entry.2.call, Result.fromStatus status, false⟩)
        unfold dispatcherAfter at hafter
        simp only [hafter] at hx
        rcases List.mem_append.mp hx with hx | hx
        · exact .inl (mem_completionsOf.mpr (.inl (by rw [pc]; exact hx)))
        · obtain ⟨entry, -, hentry⟩ := List.mem_filterMap.mp hx
          obtain ⟨status, -, rfl⟩ := Option.map_eq_some_iff.mp hentry
          exact .inr (.inr ⟨rfl, _, rfl⟩)
      · simp only [(hpoll reads).closer] at hx
        exact .inl (mem_completionsOf.mpr (.inr (.inl hx)))
      · simp only [(hpoll reads).fired] at hx
        exact .inl (mem_completionsOf.mpr (.inr (.inr hx)))
  | @dispatcherRuns completion rest pc =>
    left
    rw [mem_completionsOf] at hx ⊢
    rw [pc]
    rcases hx with hx | hx | hx
    · rw [among_dispatcherAfter] at hx
      exact .inl (List.mem_cons_of_mem _ hx)
    · exact .inr (.inl hx)
    · rcases List.mem_append.mp hx with hx | hx
      · exact .inr (.inr hx)
      · rw [List.mem_singleton.mp hx]
        exact .inl (List.mem_cons_self ..)
  | close pc => exact .inl (hsame hx rfl (by rw [pc]; rfl) rfl)
  | closeDrains pc joined =>
    rw [mem_completionsOf] at hx
    rcases hx with hx | hx | hx
    · exact .inl (mem_completionsOf.mpr (.inl hx))
    · obtain ⟨entry, -, rfl⟩ := List.mem_map.mp hx
      exact .inr (.inr ⟨rfl, _, rfl⟩)
    · exact .inl (mem_completionsOf.mpr (.inr (.inr hx)))
  | @closeRuns completion rest pc =>
    left
    rw [mem_completionsOf] at hx ⊢
    rw [pc]
    rcases hx with hx | hx | hx
    · exact .inl hx
    · exact .inr (.inl (List.mem_cons_of_mem _ hx))
    · rcases List.mem_append.mp hx with hx | hx
      · exact .inr (.inr hx)
      · rw [List.mem_singleton.mp hx]
        exact .inr (.inl (List.mem_cons_self ..))
  | closeReturns pc => exact .inl (hsame hx rfl (by rw [pc]; rfl) rfl)

/-- A completion from a reply comes from the read loop of the dispatcher. -/
theorem completions_of_step {s t : Client} {move : Move} (h : step spec clientId s move = some t) {x : Completion}
    (hx : x ∈ completionsOf t) (hr : x.byReply = true) :
    x ∈ completionsOf s ∨ ∃ message, move = .dispatcherReads message ∧ FromReply clientId s message x := by
  rcases completions_of_any_step h hx with hold | hreply | ⟨hnone, -⟩
  · exact .inl hold
  · exact .inr hreply
  · rw [hr] at hnone
    cases hnone

/-- Any other completion is an error. -/
theorem errors_of_step {s t : Client} {move : Move} (h : step spec clientId s move = some t) {x : Completion}
    (hx : x ∈ completionsOf t) (hr : x.byReply = false) : x ∈ completionsOf s ∨ ∃ status, x.result = .error status := by
  rcases completions_of_any_step h hx with hold | ⟨_, -, _, _, _, -, -, -, rfl⟩ | ⟨-, herror⟩
  · exact .inl hold
  · cases hr
  · exact .inr herror

end PuppetMaster.Service
