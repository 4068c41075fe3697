/-
  PuppetMaster.Service.Matching — replies reach the calls they answer.

  `Matched`: a request on the wire, or handled, was written by a call that has it as its
  own; no two of them have the same ids, since a call writes once; a reply on the wire is
  that of an invocation that came to an end; and a call completed by a reply has the
  outcome of the invocation with its own request. Every move keeps it as long as no
  client makes more than 2^64 calls (`fewCalls`); `calls_without_end` goes on past that.
-/

import PuppetMaster.Service.RequestIds
import PuppetMaster.Service.Server

namespace PuppetMaster.Service

open PuppetMaster.Core PuppetMaster.Lib

variable {spec : ServiceSpec}

/-! ## The round trip of a reply -/

theorem fromStatus_error (status : Status) :
    ∃ st : Status, st.isOk = false ∧ (Result.fromStatus status : Result Bytes) = .error st :=
  ⟨_, by split <;> simp_all [Status.error, Status.isOk], rfl⟩

theorem outcome_result (outcome : Outcome) :
    (∃ payload, outcome.result = .ok payload) ∨ ∃ st : Status, st.isOk = false ∧ outcome.result = .error st := by
  cases outcome with
  | ok payload => exact .inl ⟨payload, rfl⟩
  | failed status => exact .inr (fromStatus_error status)
  | threw what => exact .inr (fromStatus_error _)
  | threwUnknown => exact .inr (fromStatus_error _)

/-- The client reads back the ids and the result that the server replied with. -/
theorem decode_replyMessage (request : Invocation) (outcome : Outcome) :
    ∃ header payload, decode (replyMessage request outcome.result) replyMagic = some (header, payload)
      ∧ header.clientId = request.clientId ∧ header.requestId = request.requestId
      ∧ replyResult header payload = outcome.result := by
  rcases outcome_result outcome with ⟨payload, hresult⟩ | ⟨st, hst, hresult⟩
  · let header : Header := { magic := replyMagic, clientId := request.clientId, requestId := request.requestId }
    rw [hresult]
    exact ⟨header, payload, decode_encode header payload, rfl, rfl, rfl⟩
  · let header : Header :=
      { magic := replyMagic, status := st.code, clientId := request.clientId, requestId := request.requestId }
    have hcode : st.code ≠ .ok := by simpa [Status.isOk] using hst
    have herror : Status.error st.code st.message = st := by
      unfold Status.error
      rw [dif_neg hcode]
    rw [hresult]
    refine ⟨header, st.message, decode_encode header st.message, rfl, rfl, ?_⟩
    simp only [replyResult, header, hcode, if_false, herror, Result.fromStatus, hst, Bool.false_eq_true]

/-! ## The service -/

/-- A call of that client has the request, under that id, and has been through its `Write`. -/
def Wrote (client : Client) (id : UInt64) (request : Bytes) : Prop :=
  ∃ call ∈ client.calls, call.requestId = some id ∧ call.request = request ∧ call.pc ≠ .sending id

/-- The ids and payload that the server reads from a request. -/
def requestOf (message : Bytes) : Option Invocation :=
  (decode message requestMagic).map fun decoded => ⟨decoded.1.clientId, decoded.1.requestId, decoded.2⟩

def Invocation.key (request : Invocation) : UInt64 × UInt64 := (request.clientId, request.requestId)

/-- Requests that can still be handled, and requests that have been. -/
def spent (s : System) : List Invocation := s.requests.filterMap requestOf ++ s.invoked

/-- The completion of a call with the outcome of the invocation that had its request. -/
structure Completes (id : UInt64) (call : Call) (answer : Answer) (x : Completion) : Prop where
  ticket : x.call = call.ticket
  requestId : call.requestId = some answer.request.requestId
  client : answer.request.clientId = id
  payload : answer.request.payload = call.request
  result : x.result = answer.outcome.result

structure Matched (s : System) : Prop where
  numbered : ∀ id, Numbered (s.client id)
  few : ∀ id, (s.client id).calls.length ≤ 2 ^ 64
  wrote : ∀ request ∈ spent s, Wrote (s.client request.clientId) request.requestId request.payload
  once : ((spent s).map Invocation.key).Nodup
  handling : ∀ request, s.server.pc = .handling request → request ∈ s.invoked
  replying : ∀ request outcome, s.server.pc = .replying request outcome → ⟨request, outcome⟩ ∈ s.answered
  answered : ∀ answer ∈ s.answered, answer.request ∈ s.invoked
  replies : ∀ id, ∀ message ∈ s.replies id, ∃ answer ∈ s.answered,
    answer.request.clientId = id ∧ message = replyMessage answer.request answer.outcome.result
  completed : ∀ id, ∀ x ∈ completionsOf (s.client id), x.byReply = true →
    ∃ call ∈ (s.client id).calls, ∃ answer ∈ s.answered, Completes id call answer x

/-- No client makes more than 2^64 calls. -/
def fewCalls (s : System) (move : SystemMove) : Prop :=
  ∀ id request timeout mayWait now, move = .client id (.call request timeout mayWait now) →
    (s.client id).calls.length < 2 ^ 64

theorem requestOf_requestMessage (id : UInt64) (call : Call) (requestId : UInt64) :
    requestOf (requestMessage id call requestId) = some ⟨id, requestId, call.request⟩ := by
  unfold requestOf requestMessage
  rw [decode_encode]
  rfl

theorem Wrote.step {s t : Client} {move : Move} (h : CallsStep move s t) (hn : Numbered s) {id : UInt64} {request : Bytes}
    (hw : Wrote s id request) : Wrote t id request := by
  obtain ⟨call, hmem, hid, hrequest, hpc⟩ := hw
  obtain ⟨call', hmem', -, hid', hrequest', -, hpc'⟩ := h.keeps hn hmem hid
  exact ⟨call', hmem', hid', hrequest'.trans hrequest, hpc' hpc⟩

/-! ## What a move keeps -/

theorem initial_matched (s : System) (h : SystemInitial s) : Matched s := by
  subst h
  exact ⟨fun _ => initial_numbered, fun _ => Nat.zero_le _, fun _ h => (by cases h), List.nodup_nil,
    fun _ h => (by cases h), fun _ _ h => (by cases h), fun _ h => (by cases h), fun _ _ h => (by cases h),
    fun _ _ h => (by cases h)⟩

/-- Messages may go, and the server may fall idle. -/
theorem Matched.frame {s t : System} (h : Matched s) (client : t.client = s.client)
    (requests : t.requests.Sublist s.requests) (replies : ∀ id, ∀ message ∈ t.replies id, message ∈ s.replies id)
    (invoked : t.invoked = s.invoked) (answered : t.answered = s.answered)
    (pc : t.server.pc = s.server.pc ∨ t.server.pc = .idle) : Matched t := by
  have hspent : (spent t).Sublist (spent s) := by
    rw [spent, spent, invoked]
    exact (requests.filterMap _).append (List.Sublist.refl _)
  refine ⟨?_, ?_, ?_, h.once.sublist (hspent.map _), ?_, ?_, ?_, ?_, ?_⟩
  · rw [client]
    exact h.numbered
  · rw [client]
    exact h.few
  · intro request hrequest
    rw [client]
    exact h.wrote request (hspent.subset hrequest)
  · intro request hpc
    rw [invoked]
    rcases pc with pc | pc
    · exact h.handling request (pc ▸ hpc)
    · rw [pc] at hpc
      cases hpc
  · intro request outcome hpc
    rw [answered]
    rcases pc with pc | pc
    · exact h.replying request outcome (pc ▸ hpc)
    · rw [pc] at hpc
      cases hpc
  · rw [answered, invoked]
    exact h.answered
  · intro id message hmessage
    rw [answered]
    exact h.replies id message (replies id message hmessage)
  · rw [client, answered]
    exact h.completed

/-- A client moves, and completes from replies only what has been answered. -/
theorem Matched.moveClient {s : System} (h : Matched s) {id : UInt64} {move : Move} {client : Client}
    (hcalls : CallsStep move (s.client id) client) (hfew : client.calls.length ≤ 2 ^ 64)
    (hnew : ∀ x ∈ completionsOf client, x.byReply = true →
      x ∈ completionsOf (s.client id)
        ∨ ∃ call ∈ (s.client id).calls, ∃ answer ∈ s.answered, Completes id call answer x) :
    Matched (setClient s id client) := by
  have hkept : ∀ x, (∃ call ∈ (s.client id).calls, ∃ answer ∈ s.answered, Completes id call answer x) →
      ∃ call ∈ client.calls, ∃ answer ∈ s.answered, Completes id call answer x := by
    intro x h
    obtain ⟨call, hmem, answer, hanswer, hx⟩ := h
    obtain ⟨call', hmem', hticket, hid, hrequest, -⟩ := hcalls.keeps (h.numbered id) hmem hx.requestId
    exact ⟨call', hmem', answer, hanswer, hx.ticket.trans hticket.symm, hid, hx.client,
      hx.payload.trans hrequest.symm, hx.result⟩
  refine ⟨?_, ?_, ?_, h.once, h.handling, h.replying, h.answered, h.replies, ?_⟩
  · intro other
    by_cases hid : other = id
    · subst hid
      rw [setClient_self]
      exact hcalls.numbered (h.numbered other)
    · rw [setClient_other hid]
      exact h.numbered other
  · intro other
    by_cases hid : other = id
    · subst hid
      rw [setClient_self]
      exact hfew
    · rw [setClient_other hid]
      exact h.few other
  · intro request hrequest
    have hwrote := h.wrote request hrequest
    by_cases hid : request.clientId = id
    · rw [hid] at hwrote ⊢
      rw [setClient_self]
      exact hwrote.step hcalls (h.numbered id)
    · rw [setClient_other hid]
      exact hwrote
  · intro other x hx hr
    by_cases hid : other = id
    · subst hid
      rw [setClient_self] at hx ⊢
      rcases hnew x hx hr with hx | hx
      · exact hkept x (h.completed other x hx hr)
      · exact hkept x hx
    · rw [setClient_other hid] at hx ⊢
      exact h.completed other x hx hr

theorem few_of_step {s : System} (h : Matched s) {id : UInt64} {move : Move} {client : Client}
    (hok : ∀ request timeout mayWait now, move = .call request timeout mayWait now →
      (s.client id).calls.length < 2 ^ 64)
    (hs : step spec id (s.client id) move = some client) : client.calls.length ≤ 2 ^ 64 := by
  have hfew := h.few id
  rcases (callsStep_of_step hs).calls_length with hlen | ⟨request, timeout, mayWait, now, rfl, hlen⟩
  · omega
  · have := hok request timeout mayWait now rfl
    omega

/-- What a reply on the wire completes is the call with the request it answers, and that call is pending. -/
theorem Matched.completes {s : System} (h : Matched s) {id : UInt64} {message : Bytes} {x : Completion}
    (hmessage : message ∈ s.replies id) (hx : FromReply id (s.client id) message x) :
    ∃ call ∈ (s.client id).calls, ∃ answer ∈ s.answered, Completes id call answer x
      ∧ message = replyMessage answer.request answer.outcome.result
      ∧ ∃ entry ∈ (s.client id).pending, entry.2.call = call.ticket := by
  obtain ⟨header, payload, found, hdecode, -, hfound, rfl⟩ := hx
  obtain ⟨answer, hanswer, hclient, rfl⟩ := h.replies id message hmessage
  obtain ⟨header', payload', hdecode', -, hid, hresult⟩ := decode_replyMessage answer.request answer.outcome
  obtain ⟨rfl, rfl⟩ := Prod.mk.inj (Option.some.inj (hdecode.symm.trans hdecode'))
  obtain ⟨entry, hentry, rfl⟩ := Option.map_eq_some_iff.mp hfound
  have hpending := List.mem_of_find?_eq_some hentry
  obtain ⟨call, hcall, hticket, hcallId⟩ := (h.numbered id).owners entry hpending
  have hkey : entry.1 = answer.request.requestId := by
    rw [← hid]
    simpa using List.find?_some hentry
  rw [hkey] at hcallId
  -- the invocation's request was written by a call with the same id, so by this one
  obtain ⟨writer, hwriter, hwriterId, hrequest, -⟩ :=
    h.wrote answer.request (List.mem_append_right _ (h.answered answer hanswer))
  rw [hclient] at hwriter
  have hnodup := (h.numbered id).distinct (h.few id)
  obtain rfl := unique_call hnodup hcall hwriter hcallId hwriterId
  exact ⟨call, hcall, answer, hanswer, ⟨hticket.symm, hcallId, hclient, hrequest.symm, hresult⟩, rfl,
    entry, hpending, hticket.symm⟩

/-- A call that is about to write has not written. -/
theorem Matched.unwritten {s : System} (h : Matched s) {id requestId : UInt64} {call : Call}
    (hcall : call ∈ (s.client id).calls) (hpc : call.pc = .sending requestId) :
    (id, requestId) ∉ (spent s).map Invocation.key := by
  intro hkey
  obtain ⟨request, hrequest, hkey⟩ := List.mem_map.mp hkey
  obtain ⟨rfl, rfl⟩ := Prod.mk.inj hkey
  obtain ⟨writer, hwriter, hwriterId, -, hwritten⟩ := h.wrote request hrequest
  have hcallId := (h.numbered _).sending call hcall _ hpc
  obtain rfl := unique_call ((h.numbered _).distinct (h.few _)) hcall hwriter hcallId hwriterId
  exact hwritten hpc

/-- A request joins those on the wire. -/
theorem Matched.deliver {s : System} (h : Matched s) {message : Bytes} {request : Invocation}
    (hrequest : requestOf message = some request) (hfresh : request.key ∉ (spent s).map Invocation.key)
    (hwrote : Wrote (s.client request.clientId) request.requestId request.payload) :
    Matched { s with requests := s.requests ++ [message] } := by
  have hspent : (spent { s with requests := s.requests ++ [message] }).Perm (request :: spent s) := by
    simp only [spent, List.filterMap_append, List.filterMap_cons, hrequest, List.filterMap_nil, List.append_assoc,
      List.singleton_append]
    exact List.perm_middle
  refine ⟨h.numbered, h.few, ?_, ?_, h.handling, h.replying, h.answered, h.replies, h.completed⟩
  · intro other hother
    rcases List.mem_cons.mp (hspent.mem_iff.mp hother) with rfl | hother
    · exact hwrote
    · exact h.wrote other hother
  · rw [(hspent.map Invocation.key).nodup_iff]
    exact List.nodup_cons.mpr ⟨hfresh, h.once⟩

/-- The server takes a request off the wire: it is handled, or dropped. -/
theorem Matched.serve {s : System} (h : Matched s) {k : Nat} {message : Bytes} (hmessage : s.requests[k]? = some message)
    (received now : Int) :
    Matched (serve { s with requests := s.requests.eraseIdx k } message received now) := by
  have hdropped : ∀ server : Server, server.pc = s.server.pc →
      Matched { s with requests := s.requests.eraseIdx k, server := server } := by
    intro server hpc
    exact h.frame rfl (List.eraseIdx_sublist ..) (fun _ _ hm => hm) rfl rfl (.inl hpc)
  unfold Service.serve
  split
  · exact hdropped s.server rfl
  · rename_i header payload hdecode
    split
    · exact hdropped { s.server with expired := s.server.expired + 1 } rfl
    · have hrequest : requestOf message = some ⟨header.clientId, header.requestId, payload⟩ := by
        rw [requestOf, hdecode]
        rfl
      have hmoved := (perm_cons_eraseIdx hmessage).filterMap requestOf
      simp only [List.filterMap_cons, hrequest] at hmoved
      refine ⟨h.numbered, h.few, ?_, ?_, ?_, ?_, ?_, h.replies, h.completed⟩
      · intro request hrequest'
        refine h.wrote request ?_
        simp only [spent, List.mem_append, List.mem_singleton] at hrequest' ⊢
        rcases hrequest' with hrequest' | hrequest' | rfl
        · exact .inl (hmoved.mem_iff.mpr (List.mem_cons_of_mem _ hrequest'))
        · exact .inr hrequest'
        · exact .inl (hmoved.mem_iff.mpr (List.mem_cons_self ..))
      · refine (List.Perm.nodup_iff (List.Perm.map _ ?_)).mpr h.once
        simp only [spent]
        refine List.Perm.trans ?_ (hmoved.symm.append_right _)
        rw [← List.append_assoc]
        exact List.perm_append_singleton _ _
      · intro request hpc
        cases hpc
        exact List.mem_append_right _ (List.mem_singleton.mpr rfl)
      · intro request outcome hpc
        cases hpc
      · intro answer hanswer
        exact List.mem_append_left _ (h.answered answer hanswer)

theorem Matched.handlerReturns {s : System} (h : Matched s) {request : Invocation}
    (hpc : s.server.pc = .handling request) (outcome : Outcome) :
    Matched { s with
      server := { s.server with pc := .replying request outcome, handled := s.server.handled + 1 }
      answered := s.answered ++ [⟨request, outcome⟩] } := by
  have hgrow : ∀ a ∈ s.answered, a ∈ s.answered ++ [⟨request, outcome⟩] := fun a ha => List.mem_append_left _ ha
  refine ⟨h.numbered, h.few, h.wrote, h.once, ?_, ?_, ?_, ?_, ?_⟩
  · intro other hother
    cases hother
  · intro other outcome' hother
    cases hother
    exact List.mem_append_right _ (List.mem_singleton.mpr rfl)
  · intro answer hanswer
    rcases List.mem_append.mp hanswer with hanswer | hanswer
    · exact h.answered answer hanswer
    · rw [List.mem_singleton.mp hanswer]
      exact h.handling request hpc
  · intro id message hmessage
    obtain ⟨answer, hanswer, hreply⟩ := h.replies id message hmessage
    exact ⟨answer, hgrow answer hanswer, hreply⟩
  · intro id x hx hr
    obtain ⟨call, hcall, answer, hanswer, hrest⟩ := h.completed id x hx hr
    exact ⟨call, hcall, answer, hgrow answer hanswer, hrest⟩

theorem Matched.sendReply {s : System} (h : Matched s) {request : Invocation} {outcome : Outcome}
    (hpc : s.server.pc = .replying request outcome) (env : ReplyEnv) : Matched (sendReply s request outcome env) := by
  have hanswer := h.replying request outcome hpc
  unfold Service.sendReply
  refine ⟨h.numbered, h.few, h.wrote, h.once, fun _ hother => (by cases hother), fun _ _ hother => (by cases hother),
    h.answered, ?_, h.completed⟩
  intro id message hmessage
  dsimp only at hmessage
  split at hmessage
  · by_cases hid : id = request.clientId
    · subst hid
      rw [Function.update_self] at hmessage
      rcases List.mem_append.mp hmessage with hmessage | hmessage
      · exact h.replies _ message hmessage
      · exact ⟨_, hanswer, rfl, List.mem_singleton.mp hmessage⟩
    · rw [Function.update_of_ne hid] at hmessage
      exact h.replies id message hmessage
  · exact h.replies id message hmessage

theorem outgoing_some {id : UInt64} {client : Client} {c : Nat} {message : Bytes}
    (h : outgoing id client c = some message) :
    ∃ call requestId, client.calls[c]? = some call ∧ call.pc = .sending requestId
      ∧ message = requestMessage id call requestId := by
  obtain ⟨call, hcall, h⟩ := Option.bind_eq_some_iff.mp h
  split at h
  · rename_i requestId hpc
    exact ⟨call, requestId, hcall, hpc, (Option.some.inj h).symm⟩
  · cases h

theorem erase_subset (replies : UInt64 → List Bytes) (id : UInt64) (k : Nat) (other : UInt64) :
    ∀ message ∈ Function.update replies id ((replies id).eraseIdx k) other, message ∈ replies other := by
  intro message hmessage
  by_cases hother : other = id
  · subst hother
    rw [Function.update_self] at hmessage
    exact (List.eraseIdx_sublist ..).subset hmessage
  · rw [Function.update_of_ne hother] at hmessage
    exact hmessage

/-- A caller writes the request it registered. -/
theorem Matched.send {s : System} (h : Matched s) {id : UInt64} {c : Nat} {status : Status} {message : Bytes}
    {client : Client} (hout : outgoing id (s.client id) c = some message)
    (hs : step spec id (s.client id) (.write c status) = some client) (delivered : Bool) :
    Matched { setClient s id client with requests := if delivered then s.requests ++ [message] else s.requests } := by
  obtain ⟨call, requestId, hcall, hpc, rfl⟩ := outgoing_some hout
  have hmem := List.mem_of_getElem? hcall
  have hmoved : Matched (setClient s id client) := by
    refine h.moveClient (callsStep_of_step hs) (few_of_step h (fun _ _ _ _ hm => (by cases hm)) hs) ?_
    intro x hx hr
    rcases completions_of_step hs hx hr with hx | ⟨message, hm, -⟩
    · exact .inl hx
    · cases hm
  have hwrote : Wrote client requestId call.request := by
    have hid := (h.numbered id).sending call hmem requestId hpc
    simp only [step, stepCall, hcall, Option.bind_some, hpc, Option.some.injEq] at hs
    subst hs
    refine ⟨_, mem_set_new _ hcall, hid, rfl, ?_⟩
    dsimp only
    split
    · simp
    · simp
  cases delivered with
  | false => exact hmoved
  | true =>
    refine hmoved.deliver (requestOf_requestMessage id call requestId) (h.unwritten hmem hpc) ?_
    show Wrote (Function.update s.client id client id) requestId call.request
    rw [Function.update_self]
    exact hwrote

theorem step_matched {s t : System} {move : SystemMove} (h : Matched s) (hok : fewCalls s move)
    (hs : systemStep spec s move = some t) : Matched t := by
  cases move with
  | client id move =>
    simp only [systemStep] at hs
    split at hs
    · rename_i hinternal
      obtain ⟨client, hclient, rfl⟩ := Option.map_eq_some_iff.mp hs
      have hfew : client.calls.length ≤ 2 ^ 64 := by
        refine few_of_step h ?_ hclient
        rintro request timeout mayWait now rfl
        exact hok id request timeout mayWait now rfl
      refine h.moveClient (callsStep_of_step hclient) hfew fun x hx hr => ?_
      rcases completions_of_step hclient hx hr with hx | ⟨message, rfl, -⟩
      · exact .inl hx
      · cases hinternal
    · cases hs
  | send id c status delivered =>
    simp only [systemStep] at hs
    split at hs
    · rename_i message client hout hclient
      cases hs
      exact h.send hout hclient delivered
    · cases hs
  | receive id k =>
    simp only [systemStep] at hs
    split at hs
    · cases hs
    · rename_i message hmessage
      obtain ⟨client, hclient, rfl⟩ := Option.map_eq_some_iff.mp hs
      have hmoved : Matched (setClient s id client) := by
        refine h.moveClient (callsStep_of_step hclient) (few_of_step h (fun _ _ _ _ hm => (by cases hm)) hclient) ?_
        intro x hx hr
        rcases completions_of_step hclient hx hr with hx | ⟨message', hm, hx⟩
        · exact .inl hx
        · cases hm
          obtain ⟨call, hcall, answer, hanswer, hx, -⟩ := h.completes (List.mem_of_getElem? hmessage) hx
          exact .inr ⟨call, hcall, answer, hanswer, hx⟩
      exact hmoved.frame rfl (List.Sublist.refl _) (erase_subset s.replies id k) rfl rfl (.inl rfl)
  | loseRequest k =>
    cases hs
    exact h.frame rfl (List.eraseIdx_sublist ..) (fun _ _ hm => hm) rfl rfl (.inl rfl)
  | loseReply id k =>
    cases hs
    exact h.frame rfl (List.Sublist.refl _) (erase_subset s.replies id k) rfl rfl (.inl rfl)
  | take k received now =>
    simp only [systemStep] at hs
    split at hs
    · rename_i message _ hmessage
      cases hs
      exact h.serve hmessage received now
    · cases hs
  | handlerReturns outcome =>
    simp only [systemStep] at hs
    split at hs
    · rename_i request hpc
      cases hs
      exact h.handlerReturns hpc outcome
    · cases hs
  | reply env =>
    simp only [systemStep] at hs
    split at hs
    · rename_i request outcome hpc
      cases hs
      exact h.sendReply hpc env
    · cases hs
  | evict cutoff =>
    cases hs
    exact h.frame rfl (List.Sublist.refl _) (fun _ _ hm => hm) rfl rfl (.inl rfl)
  | restart =>
    cases hs
    exact h.frame rfl (List.Sublist.refl _) (fun _ _ hm => hm) rfl rfl (.inr rfl)

theorem reach_matched {s : System} (h : Reach (systemStep spec) fewCalls SystemInitial s) : Matched s :=
  h.invariant initial_matched fun _ _ _ hi hok hs => step_matched hi hok hs

/-! ## Matching -/

/-- What a client completes without a reply, it completes with an error. -/
def ErrorsElse (s : System) : Prop :=
  ∀ id, ∀ x ∈ completionsOf (s.client id), x.byReply = false → ∃ status, x.result = .error status

theorem ErrorsElse.moveClient {s t : System} (h : ErrorsElse s) {id : UInt64} {move : Move} {client : Client}
    (hs : step spec id (s.client id) move = some client)
    (hclient : t.client = (setClient s id client).client) : ErrorsElse t := by
  intro other x hx hr
  rw [hclient] at hx
  by_cases hid : other = id
  · subst hid
    rw [setClient_self] at hx
    exact (errors_of_step hs hx hr).elim (fun hold => h other x hold hr) id
  · rw [setClient_other hid] at hx
    exact h other x hx hr

theorem step_errorsElse {s t : System} {move : SystemMove} (h : ErrorsElse s) (hs : systemStep spec s move = some t) :
    ErrorsElse t := by
  cases move with
  | client id move =>
    simp only [systemStep, Option.ite_none_right_eq_some, Option.map_eq_some_iff] at hs
    obtain ⟨-, client, hclient, rfl⟩ := hs
    exact h.moveClient hclient rfl
  | send id c status delivered =>
    simp only [systemStep] at hs
    split at hs
    · next hclient =>
      cases hs
      exact h.moveClient hclient rfl
    · cases hs
  | receive id k =>
    simp only [systemStep] at hs
    split at hs
    · cases hs
    · obtain ⟨client, hclient, rfl⟩ := Option.map_eq_some_iff.mp hs
      exact h.moveClient hclient rfl
  | take k received now =>
    simp only [systemStep] at hs
    split at hs
    · cases hs
      unfold serve
      split
      · exact h
      · split <;> exact h
    · cases hs
  | handlerReturns outcome =>
    simp only [systemStep] at hs
    split at hs
    · cases hs
      exact h
    · cases hs
  | reply env =>
    simp only [systemStep] at hs
    split at hs
    · cases hs
      exact h
    · cases hs
  | loseRequest k | loseReply id k | evict cutoff | restart =>
    cases hs
    exact h

theorem reach_errorsElse {s : System} (h : Reach (systemStep spec) fewCalls SystemInitial s) : ErrorsElse s := by
  refine h.invariant ?_ fun _ _ _ hi _ hs => step_errorsElse hi hs
  rintro s rfl id x hx
  cases hx

/-- Reading a reply completes nothing, or the call whose request it answers, if that one is still pending. -/
def ReadsOwnReply (spec : ServiceSpec) (s : System) (id : UInt64) : Prop :=
  ∀ k t, systemStep spec s (.receive id k) = some t →
    completionsOf (t.client id) = completionsOf (s.client id)
      ∨ ∃ call ∈ (s.client id).calls, ∃ answer ∈ s.answered, ∃ x, Completes id call answer x
        ∧ (s.replies id)[k]? = some (replyMessage answer.request answer.outcome.result)
        ∧ (∃ entry ∈ (s.client id).pending, entry.2.call = call.ticket)
        ∧ (completionsOf (t.client id)).Perm (x :: completionsOf (s.client id))

theorem Matched.readsOwnReply {s : System} (h : Matched s) (id : UInt64) : ReadsOwnReply spec s id := by
  intro k t hs
  simp only [systemStep] at hs
  split at hs
  · cases hs
  · rename_i message hmessage
    obtain ⟨client, hclient, rfl⟩ := Option.map_eq_some_iff.mp hs
    dsimp only
    rw [setClient_self]
    rcases completions_of_read hclient with heq | ⟨x, hx, hperm⟩
    · exact .inl heq
    · obtain ⟨call, hcall, answer, hanswer, hcompletes, rfl, hpending⟩ :=
        h.completes (List.mem_of_getElem? hmessage) hx
      exact .inr ⟨call, hcall, answer, hanswer, x, hcompletes, hmessage, hpending, hperm⟩

theorem replies_match_their_calls {s : System} (h : Reach (systemStep spec) fewCalls SystemInitial s) :
    (s.invoked.map Invocation.key).Nodup
      ∧ ∀ id, (requestIds (s.client id)).Nodup
        ∧ (∀ x ∈ (s.client id).fired, x.byReply = true →
          ∃ call ∈ (s.client id).calls, ∃ answer ∈ s.answered, answer.request ∈ s.invoked ∧ Completes id call answer x)
        ∧ (∀ x ∈ (s.client id).fired, x.byReply = false → ∃ status, x.result = .error status)
        ∧ ReadsOwnReply spec s id := by
  have hmatched := reach_matched h
  have herrors := reach_errorsElse h
  refine ⟨?_, fun id => ⟨(hmatched.numbered id).distinct (hmatched.few id), ?_, ?_, hmatched.readsOwnReply id⟩⟩
  · have honce := hmatched.once
    rw [spent, List.map_append] at honce
    exact (List.nodup_append.mp honce).2.1
  · intro x hx hr
    obtain ⟨call, hcall, answer, hanswer, hcompletes⟩ :=
      hmatched.completed id x (mem_completionsOf.mpr (.inr (.inr hx))) hr
    exact ⟨call, hcall, answer, hanswer, hmatched.answered answer hanswer, hcompletes⟩
  · exact fun x hx => herrors id x (mem_completionsOf.mpr (.inr (.inr hx)))

def fewCallsCheck (s : System) : SystemMove → Bool
  | .client id (.call _ _ _ _) => decide ((s.client id).calls.length < 2 ^ 64)
  | _ => true

theorem fewCallsCheck_sound (s : System) (move : SystemMove) (h : fewCallsCheck s move = true) : fewCalls s move := by
  rintro id request timeout mayWait now rfl
  simpa [fewCallsCheck] using h

/-- Client 5 calls twice; the second call is answered first, the first one expires before its reply arrives. -/
def lateReply : List SystemMove :=
  [.client 5 (.call [1] 1000 true 0), .client 5 (.search 0 0 { reads := [heartbeat] }),
    .client 5 (.call [2] 5000 true 0), .client 5 (.search 1 0 {}),
    .send 5 0 .ok true, .send 5 1 .ok true,
    .take 1 0 0, .handlerReturns (.ok [20]), .reply {},
    .take 0 0 0, .handlerReturns (.ok [10]), .reply {},
    .client 5 (.dispatcherWakes []), .receive 5 0, .client 5 (.dispatcherExpires [] 2000 2000),
    .client 5 .dispatcherRuns, .client 5 .dispatcherRuns,
    .client 5 (.dispatcherWakes []), .receive 5 0, .client 5 (.dispatcherExpires [] 2000 2000)]

/-- The late reply is for nobody. -/
theorem a_late_reply_completes_nothing :
    ∃ s : System, s.answered.length = 2 ∧ s.replies 5 = []
      ∧ (s.client 5).fired = [⟨1, .ok [20], true⟩, ⟨0, .error (noReplyWithin demoSpec 1000), false⟩]
      ∧ (requestIds (s.client 5)).Nodup
      ∧ ∃ call ∈ (s.client 5).calls, ∃ answer ∈ s.answered, Completes 5 call answer ⟨1, .ok [20], true⟩ := by
  obtain ⟨s, hs, hp⟩ : ∃ s, Reach (systemStep demoSpec) fewCalls SystemInitial s
      ∧ (decide (s.answered.length = 2) && decide (s.replies 5 = [])
        && decide ((s.client 5).fired
          = [⟨1, .ok [20], true⟩, ⟨0, .error (noReplyWithin demoSpec 1000), false⟩])) = true :=
    reach_of_check fewCallsCheck lateReply _ fewCallsCheck_sound rfl (by decide +kernel)
  simp only [Bool.and_eq_true, decide_eq_true_eq] at hp
  obtain ⟨⟨hanswered, hreplies⟩, hfired⟩ := hp
  obtain ⟨-, hclient⟩ := replies_match_their_calls hs
  obtain ⟨hids, hmatch, -⟩ := hclient 5
  obtain ⟨call, hcall, answer, hanswer, -, hcompletes⟩ := hmatch ⟨1, .ok [20], true⟩ (by rw [hfired]; simp) rfl
  exact ⟨s, hanswered, hreplies, hfired, hids, call, hcall, answer, hanswer, hcompletes⟩

/-! ## Calls without end -/

/-- The client is open and has seen a heartbeat of server 7 at time 0. -/
def Serving (s : Client) : Prop := s.closed = false ∧ s.serverInstance = 7 ∧ s.heartbeatAt = 0

theorem Serving.search {s : Client} (h : Serving s) {c : Nat} {call : Call} (hcall : s.calls[c]? = some call)
    (hpc : call.pc = .entered) : step demoSpec 5 s (.search c 0 {}) = some (register s c call) := by
  obtain ⟨hclosed, hserver, hat⟩ := h
  have hlive : liveServer demoSpec s 0 = none := by
    simp [liveServer, hserver, hat, liveness, demoSpec]
  simp [step, stepCall, hcall, hpc, searchServer, hclosed, pollPresence, hlive, matchServer]

/-- One more call of such a client gets one more request id. -/
theorem Serving.call {s : Client} (h : Serving s) :
    ∃ t u, step demoSpec 5 s (.call [1] 1 true 0) = some t ∧ step demoSpec 5 t (.search s.calls.length 0 {}) = some u
      ∧ Serving u ∧ (requestIds u).length = (requestIds s).length + 1 := by
  let new : Call := ⟨s.calls.length, [1], 1, 0 + 1, true, none, .entered⟩
  let t : Client := { s with calls := s.calls ++ [new] }
  have hnew : t.calls[s.calls.length]? = some new := List.getElem?_concat_length
  have ht : Serving t := h
  obtain ⟨-, -, -, hclosed, hserver, hat⟩ := register_others t s.calls.length new
  refine ⟨t, _, rfl, ht.search hnew rfl, ⟨hclosed.trans ht.1, hserver.trans ht.2.1, hat.trans ht.2.2⟩, ?_⟩
  have hids := (filterMap_set_perm (f := Call.requestId)
    { new with requestId := some (t.nextRequest + 1), pc := .sending (t.nextRequest + 1) } hnew).length_eq
  rw [← register_calls] at hids
  have hsame : requestIds t = requestIds s := by simp [requestIds, t, new]
  rw [← hsame]
  simp only [new, Option.toList_none, List.nil_append, Option.toList_some, List.singleton_append, List.length_cons] at hids
  exact hids

theorem calls_without_end (n : Nat) :
    ∃ s, Reach (systemStep demoSpec) anyMove SystemInitial s ∧ Serving (s.client 5)
      ∧ (requestIds (s.client 5)).length = n := by
  induction n with
  | zero =>
    obtain ⟨s, hs, hp⟩ : ∃ s, Reach (systemStep demoSpec) anyMove SystemInitial s
        ∧ (decide ((s.client 5).closed = false) && decide ((s.client 5).serverInstance = 7)
          && decide ((s.client 5).heartbeatAt = 0) && decide ((requestIds (s.client 5)).length = 0)) = true :=
      reach_of_run [.client 5 (.dispatcherWakes [heartbeat])] _ rfl (by decide +kernel)
    simp only [Bool.and_eq_true, decide_eq_true_eq] at hp
    obtain ⟨⟨⟨hclosed, hserver⟩, hat⟩, hnone⟩ := hp
    exact ⟨s, hs, ⟨hclosed, hserver, hat⟩, hnone⟩
  | succ n ih =>
    obtain ⟨s, hs, hserving, hlen⟩ := ih
    obtain ⟨t, u, ht, hu, hserving', hlen'⟩ := hserving.call
    have hcall : systemStep demoSpec s (.client 5 (.call [1] 1 true 0)) = some (setClient s 5 t) := by
      simp [systemStep, Move.internal, ht]
    have hsearch : systemStep demoSpec (setClient s 5 t) (.client 5 (.search (s.client 5).calls.length 0 {}))
        = some (setClient (setClient s 5 t) 5 u) := by
      simp [systemStep, Move.internal, hu]
    refine ⟨_, (hs.step _ trivial hcall).step _ trivial hsearch, ?_, ?_⟩
    · rw [setClient_self]
      exact hserving'
    · rw [setClient_self, hlen', hlen]

/-- Each client moves by itself. -/
theorem client_of_systemStep {s t : System} {move : SystemMove} (h : systemStep spec s move = some t) (id : UInt64) :
    t.client id = s.client id ∨ ∃ own, CallsStep own (s.client id) (t.client id) := by
  have hsame : ∀ u : System, u.client = s.client →
      u.client id = s.client id ∨ ∃ own, CallsStep own (s.client id) (u.client id) := fun u hu => .inl (by rw [hu])
  have hmoved : ∀ {other : UInt64} {move : Move} {client : Client}, step spec other (s.client other) move = some client →
      Function.update s.client other client id = s.client id
        ∨ ∃ own, CallsStep own (s.client id) (Function.update s.client other client id) := by
    intro other move client hstep
    by_cases hid : id = other
    · subst hid
      rw [Function.update_self]
      exact .inr ⟨move, callsStep_of_step hstep⟩
    · rw [Function.update_of_ne hid]
      exact .inl rfl
  cases move with
  | client other move =>
    simp only [systemStep] at h
    split at h
    · obtain ⟨client, hclient, rfl⟩ := Option.map_eq_some_iff.mp h
      exact hmoved hclient
    · cases h
  | send other c status delivered =>
    simp only [systemStep] at h
    split at h
    · rename_i message client hout hclient
      cases h
      exact hmoved hclient
    · cases h
  | receive other k =>
    simp only [systemStep] at h
    split at h
    · cases h
    · obtain ⟨client, hclient, rfl⟩ := Option.map_eq_some_iff.mp h
      exact hmoved hclient
  | loseRequest k => cases h; exact hsame _ rfl
  | loseReply other k => cases h; exact hsame _ rfl
  | take k received now =>
    simp only [systemStep] at h
    split at h
    · cases h
      refine hsame _ ?_
      unfold serve
      split
      · rfl
      · split
        · rfl
        · rfl
    · cases h
  | handlerReturns outcome =>
    simp only [systemStep] at h
    split at h
    · cases h
      exact hsame _ rfl
    · cases h
  | reply env =>
    simp only [systemStep] at h
    split at h
    · cases h
      exact hsame _ rfl
    · cases h
  | evict cutoff => cases h; exact hsame _ rfl
  | restart => cases h; exact hsame _ rfl

theorem reach_numbered {s : System} (h : Reach (systemStep spec) anyMove SystemInitial s) (id : UInt64) :
    Numbered (s.client id) := by
  refine h.invariant (I := fun s => Numbered (s.client id)) ?_ fun s move t hi _ hs => ?_
  · rintro s rfl
    exact initial_numbered
  · rcases client_of_systemStep hs id with hsame | ⟨own, hstep⟩
    · rw [hsame]
      exact hi
    · exact hstep.numbered hi

/-- After 2^64 calls `next_request` starts over. -/
theorem two_calls_share_an_id :
    ∃ s, Reach (systemStep demoSpec) anyMove SystemInitial s ∧ ¬ (requestIds (s.client 5)).Nodup := by
  obtain ⟨s, hs, -, hlen⟩ := calls_without_end (2 ^ 64 + 1)
  exact ⟨s, hs, (reach_numbered hs 5).repeats (by omega)⟩

end PuppetMaster.Service
