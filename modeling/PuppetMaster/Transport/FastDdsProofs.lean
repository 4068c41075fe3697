/-
  PuppetMaster.Transport.FastDdsProofs — what holds of the FastDDS transport across threads
  (see `PuppetMaster.Transport.FastDds`).

  Two calls of `Shutdown` of one state never both hold its pointers, and the one that has
  them deletes the entity (`Agrees`, `shutdown_agrees`). So in every reachable state (`Inv`)
  an entity that is in DDS is of a state that the transport, or its `Close`, still has, and
  its topic is there under the name and with the type of the endpoint.
  - `entities_are_safe`: what is in use is in DDS, with its topic and the participant.
  - `close_leaves_nothing`: when `Close` gets to its last section, no entity is left, and so
    DDS refuses none of its deletions.
  - `close_drains`: until then a section of it, or of what it waits for, can run, as long as no data
    callback waits for the transport.
-/

import Mathlib.Data.List.Nodup
import PuppetMaster.Lib.Lists
import PuppetMaster.Transport.FastDds

namespace PuppetMaster.FastDds

open PuppetMaster.Core PuppetMaster.Lib

/-! ## Two calls of Shutdown -/

/-- The state of an endpoint and where two calls of its `Shutdown` are. -/
structure Agrees (e : EndpointState) (mine other : ShutdownPc) : Prop where
  exclusive : ¬ (mine.holdsMutex = true ∧ other.holdsMutex = true)
  writer : e.kind = .writer → mine.holdsMutex = false ∧ other.holdsMutex = false ∧ e.listening = false
  attached : e.attached = true → e.inDds = true
  used : e.used = true → e.attached = true
  listening : e.listening = true → e.inDds = true
  /-- An entity whose pointers were taken out is with the call that took them. -/
  owner : e.inDds = true → e.attached = false → mine = .detached true ∨ other = .detached true
  owned : mine = .detached true ∨ other = .detached true → e.inDds = true ∧ e.attached = false
  gone : mine = .detached false ∨ mine = .finished ∨ other = .detached false ∨ other = .finished → e.inDds = false

theorem Agrees.symm {e : EndpointState} {mine other : ShutdownPc} (h : Agrees e mine other) : Agrees e other mine where
  exclusive hboth := h.exclusive ⟨hboth.2, hboth.1⟩
  writer hkind := ⟨(h.writer hkind).2.1, (h.writer hkind).1, (h.writer hkind).2.2⟩
  attached := h.attached
  used := h.used
  listening := h.listening
  owner hin hdetached := (h.owner hin hdetached).symm
  owned howns := h.owned howns.symm
  gone := by
    rintro (hempty | hdone | hempty | hdone)
    · exact h.gone (.inr (.inr (.inl hempty)))
    · exact h.gone (.inr (.inr (.inr hdone)))
    · exact h.gone (.inl hempty)
    · exact h.gone (.inr (.inl hdone))

/-- A call that has returned may as well not have begun. -/
theorem Agrees.returned {e : EndpointState} {mine : ShutdownPc} (h : Agrees e mine .finished) : Agrees e mine .idle := by
  have hgone := h.gone (.inr (.inr (.inr rfl)))
  refine ⟨fun hboth => (nomatch hboth.2), fun hkind => ⟨(h.writer hkind).1, rfl, (h.writer hkind).2.2⟩, h.attached, h.used,
    h.listening, ?_, ?_, fun _ => hgone⟩
  · intro hin
    rw [hgone] at hin
    cases hin
  · rintro (hmine | hother)
    · exact h.owned (.inl hmine)
    · cases hother

/-- What a section of `Shutdown` leaves alone. -/
structure SameState (e e' : EndpointState) : Prop where
  topic : e'.topic = e.topic
  message : e'.message = e.message
  kind : e'.kind = e.kind
  destructor : e'.destructor = e.destructor
  released : e'.released = e.released
  inDds : e'.inDds = true → e.inDds = true

/-- The pointers are not out while a call that holds the mutex has not taken them. -/
theorem Agrees.not_taken {e : EndpointState} {mine other : ShutdownPc} (h : Agrees e mine other) (hmine : mine ≠ .detached true)
    (hother : other.holdsMutex = false) (hdetached : e.attached = false) : e.inDds = false := by
  rw [← Bool.not_eq_true]
  intro hin
  rcases h.owner hin hdetached with heq | heq
  · exact hmine heq
  · rw [heq] at hother
    cases hother

/-- A writer: one section deletes, if there is something to delete. -/
theorem Agrees.writer_shuts {e e' : EndpointState} {mine' other : ShutdownPc} (h : Agrees e .idle other)
    (hkind : e.kind = .writer) (hstep : e.shutdown .idle other = some (e', mine')) :
    Agrees e' mine' other ∧ SameState e e' := by
  simp only [EndpointState.shutdown, hkind] at hstep
  obtain ⟨-, hother, hsilent⟩ := h.writer hkind
  split at hstep
  · cases hstep
  · next hfree =>
    cases hstep
    have hgone : (e.inDds && !e.attached) = false := by
      cases hattached : e.attached with
      | true => rw [Bool.not_true, Bool.and_false]
      | false =>
        rw [h.not_taken ShutdownPc.noConfusion hother hattached]
        rfl
    refine ⟨⟨fun hboth => (nomatch hboth.1), fun _ => ⟨rfl, hother, hsilent⟩, fun hfalse => (nomatch hfalse), ?_, ?_, ?_, ?_,
      fun _ => hgone⟩, ⟨rfl, rfl, hkind.symm, rfl, rfl, fun hin => (Bool.and_eq_true_iff.mp hin).1⟩⟩
    · intro hused
      exact absurd hused hfree
    · intro hlistening
      rw [hsilent] at hlistening
      cases hlistening
    · intro hin
      rw [hgone] at hin
      cases hin
    · rintro (hmine | hdetached)
      · cases hmine
      · rw [hdetached] at hother
        cases hother

/-- A reader: the mutex is taken. -/
theorem Agrees.locks {e e' : EndpointState} {mine' other : ShutdownPc} (h : Agrees e .idle other)
    (hkind : e.kind = .reader) (hstep : e.shutdown .idle other = some (e', mine')) :
    Agrees e' mine' other ∧ SameState e e' := by
  simp only [EndpointState.shutdown, hkind] at hstep
  split at hstep
  · cases hstep
  · next hfree =>
    cases hstep
    refine ⟨⟨fun hboth => hfree hboth.2, fun hwriter => ?_, h.attached, h.used, h.listening, ?_, ?_, ?_⟩,
      ⟨rfl, rfl, rfl, rfl, rfl, id⟩⟩
    · rw [hkind] at hwriter
      cases hwriter
    · intro hin hdetached
      exact (h.owner hin hdetached).imp (nomatch ·) id
    · rintro (hmine | hother)
      · cases hmine
      · exact h.owned (.inr hother)
    · rintro (hmine | hmine | hother)
      · cases hmine
      · cases hmine
      · exact h.gone (.inr (.inr hother))

/-- The pointers are taken out. -/
theorem Agrees.detaches {e e' : EndpointState} {mine' other : ShutdownPc} (h : Agrees e .locked other)
    (hkind : e.kind = .reader) (hstep : e.shutdown .locked other = some (e', mine')) :
    Agrees e' mine' other ∧ SameState e e' := by
  simp only [EndpointState.shutdown, hkind] at hstep
  have hother : other.holdsMutex = false := Bool.eq_false_iff.mpr fun hheld => h.exclusive ⟨rfl, hheld⟩
  split at hstep
  · cases hstep
  · next hfree =>
    cases hstep
    refine ⟨⟨fun hboth => h.exclusive ⟨rfl, hboth.2⟩, fun hwriter => ?_, fun hfalse => (nomatch hfalse), ?_,
      h.listening, ?_, ?_, ?_⟩, ⟨rfl, rfl, hkind.symm, rfl, rfl, id⟩⟩
    · cases hwriter
    · intro hused
      exact absurd hused hfree
    · intro hin _
      cases hattached : e.attached with
      | true => exact .inl rfl
      | false =>
        have hout := h.not_taken ShutdownPc.noConfusion hother hattached
        rw [hout] at hin
        cases hin
    · rintro (hmine | hdetached)
      · have hattached : e.attached = true := ShutdownPc.detached.inj hmine
        exact ⟨h.attached hattached, rfl⟩
      · rw [hdetached] at hother
        cases hother
    · rintro (hmine | hmine | hempty)
      · exact h.not_taken ShutdownPc.noConfusion hother (ShutdownPc.detached.inj hmine)
      · cases hmine
      · exact h.gone (.inr (.inr hempty))

/-- The reader is deleted. -/
theorem Agrees.deletes {e e' : EndpointState} {mine' other : ShutdownPc} {owns : Bool} (h : Agrees e (.detached owns) other)
    (hkind : e.kind = .reader) (hstep : e.shutdown (.detached owns) other = some (e', mine')) :
    Agrees e' mine' other ∧ SameState e e' := by
  simp only [EndpointState.shutdown, hkind] at hstep
  have hother : other.holdsMutex = false := Bool.eq_false_iff.mpr fun hheld => h.exclusive ⟨rfl, hheld⟩
  split at hstep
  · cases hstep
  · next hsilent =>
    cases hstep
    have hgone : (e.inDds && !owns) = false := by
      cases owns with
      | true => rw [Bool.not_true, Bool.and_false]
      | false =>
        rw [h.gone (.inl rfl)]
        rfl
    have hdetached : e.attached = false := by
      cases owns with
      | true => exact (h.owned (.inl rfl)).2
      | false =>
        rw [← Bool.not_eq_true]
        intro hattached
        have hin := h.attached hattached
        rw [h.gone (.inl rfl)] at hin
        cases hin
    refine ⟨⟨fun hboth => (nomatch hboth.1), fun hwriter => ?_, ?_, h.used, ?_, ?_, ?_, fun _ => hgone⟩,
      ⟨rfl, rfl, hkind.symm, rfl, rfl, fun hin => (Bool.and_eq_true_iff.mp hin).1⟩⟩
    · cases hwriter
    · intro hattached
      rw [hdetached] at hattached
      cases hattached
    · intro hlistening
      have hin := h.listening hlistening
      cases owns with
      | true => exact absurd hlistening (by simpa using hsilent)
      | false =>
        rw [h.gone (.inl rfl)] at hin
        cases hin
    · intro hin
      rw [hgone] at hin
      cases hin
    · rintro (hmine | htaken)
      · cases hmine
      · rw [htaken] at hother
        cases hother

theorem shutdown_agrees {e e' : EndpointState} {mine mine' other : ShutdownPc} (h : Agrees e mine other)
    (hstep : e.shutdown mine other = some (e', mine')) : Agrees e' mine' other ∧ SameState e e' := by
  cases hkind : e.kind with
  | writer =>
    cases mine with
    | idle => exact h.writer_shuts hkind hstep
    | _ => simp [EndpointState.shutdown, hkind] at hstep
  | reader =>
    cases mine with
    | idle => exact h.locks hkind hstep
    | locked => exact h.detaches hkind hstep
    | detached owns => exact h.deletes hkind hstep
    | finished => simp [EndpointState.shutdown, hkind] at hstep

/-! ## The transport's invariant -/

namespace FastDdsTransport

variable {t : FastDdsTransport}

/-- The states that the transport or its `Close` still has. -/
def listed (t : FastDdsTransport) : List Nat :=
  t.readers ++ t.writers ++ match t.closer with
    | .idle => []
    | .shutting todo _ => todo

end FastDdsTransport

open FastDdsTransport

structure Inv (t : FastDdsTransport) : Prop where
  agrees : ∀ (i : Nat) (e : EndpointState), t.states[i]? = some e → Agrees e e.destructor (t.closerPc i)
  released : ∀ (i : Nat) (e : EndpointState), t.states[i]? = some e → e.released = true → e.destructor = .finished
  listed : ∀ (i : Nat) (e : EndpointState), t.states[i]? = some e → e.inDds = true → i ∈ t.listed
  topic : ∀ (i : Nat) (e : EndpointState), t.states[i]? = some e → e.inDds = true → (e.topic, e.message) ∈ t.topics
  names : (t.topics.map (·.1)).Nodup
  ddsTopics : t.ddsTopics = t.topics.map (·.1)
  closed : t.participant = false → t.topics = []
  closing : t.closing = true ↔ t.closer ≠ .idle
  taken : t.closer ≠ .idle → t.participant = true ∧ t.readers = [] ∧ t.writers = []
  running : ∀ todo pc, t.closer = .shutting todo pc → pc ≠ .finished

/-- A state whose reference is gone has no entity. -/
theorem Inv.released_gone {t : FastDdsTransport} (h : Inv t) {i : Nat} {e : EndpointState} (he : t.states[i]? = some e)
    (hreleased : e.released = true) : e.inDds = false :=
  (h.agrees i e he).gone (.inr (.inl (h.released i e he hreleased)))

theorem closerPc_idle {t : FastDdsTransport} (h : t.closer = .idle) (i : Nat) : t.closerPc i = .idle := by
  rw [closerPc, h]

/-- A change of one state that leaves its endpoint alone, and the lists of the others. -/
theorem Inv.setState {t t' : FastDdsTransport} (h : Inv t) {i : Nat} {e e' : EndpointState} (he : t.states[i]? = some e)
    (hstates : t'.states = t.states.set i e') (htopic : e'.topic = e.topic) (hmessage : e'.message = e.message)
    (hin : e'.inDds = true → e.inDds = true) (hagrees : Agrees e' e'.destructor (t'.closerPc i))
    (hreleased : e'.released = true → e'.destructor = .finished)
    (hothers : ∀ j, j ≠ i → t'.closerPc j = t.closerPc j)
    (hlisted : ∀ j, j ∈ t.listed → (j = i → e'.inDds = true) → j ∈ t'.listed)
    (htopics : t'.topics = t.topics) (hdds : t'.ddsTopics = t.ddsTopics) (hparticipant : t'.participant = t.participant)
    (hclosing : t'.closing = true ↔ t'.closer ≠ .idle)
    (htaken : t'.closer ≠ .idle → t'.participant = true ∧ t'.readers = [] ∧ t'.writers = [])
    (hrunning : ∀ todo pc, t'.closer = .shutting todo pc → pc ≠ .finished) : Inv t' := by
  have hlookup : ∀ (j : Nat) (f : EndpointState), t'.states[j]? = some f → j = i ∧ f = e' ∨ j ≠ i ∧ t.states[j]? = some f := by
    intro j f hf
    rw [hstates, getElem?_set_cases he] at hf
    split at hf
    · next heq => exact .inl ⟨heq, (Option.some.inj hf).symm⟩
    · next hne => exact .inr ⟨hne, hf⟩
  refine ⟨?_, ?_, ?_, ?_, htopics ▸ h.names, by rw [hdds, htopics, h.ddsTopics], fun hnone => ?_, hclosing, htaken, hrunning⟩
  · intro j f hf
    rcases hlookup j f hf with ⟨rfl, rfl⟩ | ⟨hne, hold⟩
    · exact hagrees
    · rw [hothers j hne]
      exact h.agrees j f hold
  · intro j f hf
    rcases hlookup j f hf with ⟨rfl, rfl⟩ | ⟨-, hold⟩
    · exact hreleased
    · exact h.released j f hold
  · intro j f hf hfin
    rcases hlookup j f hf with ⟨rfl, rfl⟩ | ⟨hne, hold⟩
    · exact hlisted j (h.listed j e he (hin hfin)) fun _ => hfin
    · exact hlisted j (h.listed j f hold hfin) fun heq => absurd heq hne
  · intro j f hf hfin
    rw [htopics]
    rcases hlookup j f hf with ⟨rfl, rfl⟩ | ⟨-, hold⟩
    · rw [htopic, hmessage]
      exact h.topic j e he (hin hfin)
    · exact h.topic j f hold hfin
  · rw [htopics]
    exact h.closed (hparticipant ▸ hnone)

/-- The same, by `setState` alone. -/
theorem Inv.changed {t : FastDdsTransport} (h : Inv t) {i : Nat} {e e' : EndpointState} (he : t.states[i]? = some e)
    (htopic : e'.topic = e.topic) (hmessage : e'.message = e.message) (hin : e'.inDds = true → e.inDds = true)
    (hagrees : Agrees e' e'.destructor (t.closerPc i)) (hreleased : e'.released = true → e'.destructor = .finished) :
    Inv (t.setState i e') :=
  h.setState he rfl htopic hmessage hin hagrees hreleased (fun _ _ => rfl)
  (fun _ hj _ => hj) rfl rfl rfl h.closing h.taken h.running

/-! ## Topics and new states -/

theorem mem_prune {t : FastDdsTransport} {states : List Nat} {i : Nat} {e : EndpointState} (he : t.states[i]? = some e)
    (hreleased : e.released = false) : i ∈ t.prune states ↔ i ∈ states := by
  rw [prune, List.mem_filter, expired, he]
  simp [hreleased]

theorem listed_idle {t : FastDdsTransport} (h : t.closer = .idle) : t.listed = t.readers ++ t.writers := by
  rw [listed, h, List.append_nil]

theorem Inv.sweepTopics {t : FastDdsTransport} (h : Inv t) (hidle : t.closer = .idle) (answers : Answers) :
    Inv (t.sweepTopics answers) := by
  have hkept : ∀ (i : Nat) (e : EndpointState), t.states[i]? = some e → e.inDds = true →
      i ∈ t.prune t.readers ++ t.prune t.writers := by
    intro i e he hin
    have hreleased : e.released = false := by
      rw [← Bool.not_eq_true]
      intro hreleased
      rw [h.released_gone he hreleased] at hin
      cases hin
    have hmem := h.listed i e he hin
    rw [listed_idle hidle, List.mem_append] at hmem
    rw [List.mem_append, mem_prune he hreleased, mem_prune he hreleased]
    exact hmem
  refine ⟨h.agrees, h.released, ?_, ?_, ?_, ?_, ?_, h.closing, fun hbusy => absurd hidle hbusy, h.running⟩
  · intro i e he hin
    rw [listed_idle (t := t.sweepTopics answers) hidle]
    exact hkept i e he hin
  · intro i e he hin
    refine List.mem_filter.mpr ⟨h.topic i e he hin, ?_⟩
    have hused : ({ t with readers := t.prune t.readers, writers := t.prune t.writers } : FastDdsTransport).stateUses
        (t.prune t.readers ++ t.prune t.writers) e.topic = true := by
      refine List.any_eq_true.mpr ⟨i, hkept i e he hin, ?_⟩
      have hstate : t.states[i]? = some e := he
      simp [hstate]
    simp only [sweeps, hused, Bool.not_true, Bool.false_and, Bool.not_false]
  · exact h.names.sublist (List.Sublist.map _ List.filter_sublist)
  · simp only [FastDdsTransport.sweepTopics]
    rw [h.ddsTopics, List.filter_map]
    congr 1
    refine List.filter_congr fun entry hentry => ?_
    have hany : (t.topics.any fun other => decide (other.1 = entry.1)) = true :=
      List.any_eq_true.mpr ⟨entry, hentry, decide_eq_true rfl⟩
    simp only [Function.comp_apply, hany, Bool.true_and]
  · intro hnone
    simp only [FastDdsTransport.sweepTopics]
    rw [h.closed hnone]
    rfl

theorem findTopic_none {t : FastDdsTransport} {topic : Bytes} (h : t.findTopic topic = none) : topic ∉ t.topics.map (·.1) := by
  intro hmem
  obtain ⟨entry, hentry, rfl⟩ := List.mem_map.mp hmem
  rw [findTopic, Option.map_eq_none_iff, List.find?_eq_none] at h
  exact h entry hentry (decide_eq_true rfl)

/-- The topic of an endpoint, with its type, once `ensureTopic` succeeded. -/
theorem Inv.ensureTopic {t t' : FastDdsTransport} (h : Inv t) (hidle : t.closer = .idle) (hopen : t.participant = true)
    {answers : Answers} {endpoint : EndpointConfig} {result : Result Unit}
    (hensure : t.ensureTopic answers endpoint = (result, t')) :
    Inv t' ∧ t'.closer = .idle ∧ t'.participant = true ∧
      (result = .ok () → (endpoint.topic.name, endpoint.message) ∈ t'.topics) := by
  have hswept := h.sweepTopics hidle answers
  have hsweptIdle : (t.sweepTopics answers).closer = .idle := hidle
  have hsweptOpen : (t.sweepTopics answers).participant = true := hopen
  unfold FastDdsTransport.ensureTopic at hensure
  generalize t.sweepTopics answers = swept at hswept hsweptIdle hsweptOpen hensure
  dsimp only at hensure
  split at hensure
  · next message hfound =>
    split at hensure
    · cases hensure
      exact ⟨hswept, hsweptIdle, hsweptOpen, fun herror => nomatch herror⟩
    · next hsame =>
      cases hensure
      refine ⟨hswept, hsweptIdle, hsweptOpen, fun _ => ?_⟩
      obtain ⟨entry, hentry, rfl⟩ := Option.map_eq_some_iff.mp hfound
      have hname : entry.1 = endpoint.topic.name := by simpa using List.find?_some hentry
      have hmem := List.mem_of_find?_eq_some hentry
      rw [← not_not.mp hsame, ← hname]
      exact hmem
  · next hnone =>
    have hnew := findTopic_none hnone
    split at hensure
    · cases hensure
      exact ⟨hswept, hsweptIdle, hsweptOpen, fun herror => nomatch herror⟩
    · split at hensure
      · cases hensure
        exact ⟨⟨hswept.agrees, hswept.released, hswept.listed, hswept.topic, hswept.names, hswept.ddsTopics, hswept.closed,
          hswept.closing, hswept.taken, hswept.running⟩, hsweptIdle, hsweptOpen, fun herror => nomatch herror⟩
      · cases hensure
        refine ⟨⟨hswept.agrees, hswept.released, hswept.listed, ?_, ?_, ?_, ?_, hswept.closing, hswept.taken, hswept.running⟩,
          hsweptIdle, hsweptOpen, fun _ => List.mem_append_right _ List.mem_cons_self⟩
        · exact fun i e he hin => List.mem_append_left _ (hswept.topic i e he hin)
        · rw [List.map_append, List.map_singleton]
          refine List.nodup_append.mpr ⟨hswept.names, List.pairwise_singleton _ _, fun name hname other hother heq => ?_⟩
          have hsame : name = endpoint.topic.name := heq.trans (List.mem_singleton.mp hother)
          exact hnew (hsame ▸ hname)
        · show swept.ddsTopics ++ [endpoint.topic.name] = _
          rw [hswept.ddsTopics, List.map_append]
          rfl
        · intro hclosed
          rw [hsweptOpen] at hclosed
          cases hclosed

/-- A state as `create` makes it. -/
theorem agrees_new (kind : EndpointKind) (topic : Bytes) (message : MessageDescriptor) (qos : EndpointQos) :
    Agrees { kind := kind, topic, message, qos } .idle .idle := by
  refine ⟨fun hboth => (nomatch hboth.1), fun _ => ⟨rfl, rfl, rfl⟩, id, fun hused => (nomatch hused),
    fun hlistening => (nomatch hlistening), fun _ hdetached => (nomatch hdetached), ?_, ?_⟩
  · rintro (howns | howns) <;> cases howns
  · rintro (hgone | hgone | hgone | hgone) <;> cases hgone

/-- A new state, whose topic is there. -/
theorem Inv.addState {t : FastDdsTransport} (h : Inv t) (hidle : t.closer = .idle) {new : EndpointState}
    (hnew : Agrees new new.destructor .idle) (hheld : new.released = false) (htopic : (new.topic, new.message) ∈ t.topics) :
    Inv (t.addState new) := by
  -- the lists keep what has an entity, and get the new state
  have hlisted : ∀ (t' : FastDdsTransport) (i : Nat) (e : EndpointState), t'.states = t.states ++ [new] →
      t'.states[i]? = some e → e.inDds = true →
        i ∈ t'.prune t.readers ∨ i ∈ t'.prune t.writers ∨ i = t.states.length := by
    intro t' i e hstates he hin
    have he' := he
    rw [hstates] at he'
    rcases getElem?_concat_cases he' with hold | ⟨heq, -⟩
    · have hreleased : e.released = false := by
        rw [← Bool.not_eq_true]
        intro hreleased
        rw [h.released_gone hold hreleased] at hin
        cases hin
      have hmem := h.listed i e hold hin
      rw [listed_idle hidle, List.mem_append] at hmem
      rw [mem_prune he hreleased, mem_prune he hreleased]
      exact hmem.imp_right .inl
    · exact .inr (.inr heq)
  have hagrees : ∀ (i : Nat) (e : EndpointState), (t.states ++ [new])[i]? = some e →
      Agrees e e.destructor .idle := by
    intro i e he
    rcases getElem?_concat_cases he with hold | ⟨-, rfl⟩
    · exact closerPc_idle hidle i ▸ h.agrees i e hold
    · exact hnew
  have hreleased : ∀ (i : Nat) (e : EndpointState), (t.states ++ [new])[i]? = some e →
      e.released = true → e.destructor = .finished := by
    intro i e he hreleased
    rcases getElem?_concat_cases he with hold | ⟨-, rfl⟩
    · exact h.released i e hold hreleased
    · rw [hheld] at hreleased
      cases hreleased
  have htopics : ∀ (i : Nat) (e : EndpointState), (t.states ++ [new])[i]? = some e →
      e.inDds = true → (e.topic, e.message) ∈ t.topics := by
    intro i e he hin
    rcases getElem?_concat_cases he with hold | ⟨-, rfl⟩
    · exact h.topic i e hold hin
    · exact htopic
  unfold FastDdsTransport.addState
  dsimp only
  split
  · refine ⟨fun i e he => ?_, hreleased, fun i e he hin => ?_, htopics, h.names, h.ddsTopics, h.closed, h.closing,
      fun hbusy => absurd hidle hbusy, h.running⟩
    · rw [closerPc_idle]
      · exact hagrees i e he
      · exact hidle
    · rw [listed_idle]
      on_goal 2 => exact hidle
      rcases hlisted _ i e rfl he hin with hreader | hwriter | heq
      · exact List.mem_append_left _ (List.mem_append_left _ hreader)
      · exact List.mem_append_right _ (List.mem_filter.mp hwriter).1
      · exact List.mem_append_left _ (List.mem_append_right _ (List.mem_singleton.mpr heq))
  · refine ⟨fun i e he => ?_, hreleased, fun i e he hin => ?_, htopics, h.names, h.ddsTopics, h.closed, h.closing,
      fun hbusy => absurd hidle hbusy, h.running⟩
    · rw [closerPc_idle]
      · exact hagrees i e he
      · exact hidle
    · rw [listed_idle]
      on_goal 2 => exact hidle
      rcases hlisted _ i e rfl he hin with hreader | hwriter | heq
      · exact List.mem_append_left _ (List.mem_filter.mp hreader).1
      · exact List.mem_append_right _ (List.mem_append_left _ hwriter)
      · exact List.mem_append_right _ (List.mem_append_right _ (List.mem_singleton.mpr heq))

theorem Inv.create {t : FastDdsTransport} (h : Inv t) (kind : EndpointKind) (answers : Answers) (endpoint : EndpointConfig) :
    Inv (t.create kind answers endpoint).2 := by
  unfold FastDdsTransport.create
  dsimp only
  split
  · exact h
  · split
    · exact h
    · next hopen =>
      rw [isOpen, Bool.not_eq_true', Bool.not_eq_false, Bool.and_eq_true, Bool.not_eq_true'] at hopen
      have hidle : t.closer = .idle := by
        by_contra hbusy
        rw [h.closing.mpr hbusy] at hopen
        cases hopen.2
      split
      · exact h
      · split
        · next hensure => exact (h.ensureTopic hidle hopen.1 hensure).1
        · next hensure =>
          obtain ⟨hinv, hstill, -, htopic⟩ := h.ensureTopic hidle hopen.1 hensure
          split
          · exact hinv
          · exact hinv.addState hstill (agrees_new kind _ _ _) rfl (htopic rfl)

/-! ## Close -/

theorem closerPc_first {t : FastDdsTransport} {state : Nat} {todo : List Nat} {pc : ShutdownPc}
    (h : t.closer = .shutting (state :: todo) pc) (i : Nat) : t.closerPc i = if state = i then pc else .idle := by
  rw [closerPc, h]

/-- Between two states `Close` runs no `Shutdown`. -/
theorem closerPc_between {t : FastDdsTransport} {todo : List Nat} (h : t.closer = .shutting todo .idle) (i : Nat) :
    t.closerPc i = .idle := by
  rw [closerPc, h]
  cases todo with
  | nil => rfl
  | cons first rest => exact ite_self _

/-- `Close` goes past a state that has no entity. -/
theorem Inv.passed {t : FastDdsTransport} (h : Inv t) {state : Nat} {todo : List Nat} {pc : ShutdownPc}
    (hcloser : t.closer = .shutting (state :: todo) pc)
    (hgone : ∀ e, t.states[state]? = some e → e.inDds = false ∧ Agrees e e.destructor .idle) :
    Inv { t with closer := .shutting todo .idle } := by
  have hbusy : t.closer ≠ .idle := by
    rw [hcloser]
    exact CloserPc.noConfusion
  refine ⟨fun i e he => ?_, h.released, fun i e he hin => ?_, h.topic, h.names, h.ddsTopics, h.closed, ?_, fun _ => h.taken hbusy,
    fun todo pc hnext => by cases hnext; exact ShutdownPc.noConfusion⟩
  · rw [@closerPc_between _ todo rfl]
    by_cases heq : state = i
    · subst heq
      exact (hgone e he).2
    · have hagrees := h.agrees i e he
      rwa [closerPc_first hcloser, if_neg heq] at hagrees
  · have hmem := h.listed i e he hin
    rw [FastDdsTransport.listed, hcloser] at hmem
    rcases List.mem_append.mp hmem with hold | htodo
    · exact List.mem_append_left _ hold
    · rcases List.mem_cons.mp htodo with rfl | hrest
      · rw [(hgone e he).1] at hin
        cases hin
      · exact List.mem_append_right _ hrest
  · exact ⟨fun _ => CloserPc.noConfusion, fun _ => h.closing.mpr hbusy⟩

/-- A section of a `Shutdown` that `Close` runs. -/
theorem Inv.shut {t : FastDdsTransport} (h : Inv t) {state : Nat} {todo : List Nat} {pc pc' : ShutdownPc} {e e' : EndpointState}
    (hcloser : t.closer = .shutting (state :: todo) pc) (he : t.states[state]? = some e)
    (hshutdown : e.shutdown pc e.destructor = some (e', pc')) :
    Inv { t.setState state e' with
      closer := if pc' = .finished then .shutting todo .idle else .shutting (state :: todo) pc' } := by
  have hbusy : t.closer ≠ .idle := by
    rw [hcloser]
    exact CloserPc.noConfusion
  have hbefore := h.agrees state e he
  rw [closerPc_first hcloser, if_pos rfl] at hbefore
  obtain ⟨hafter, hsame⟩ := shutdown_agrees hbefore.symm hshutdown
  have hagrees : Agrees e' e'.destructor pc' := by
    rw [hsame.destructor]
    exact hafter.symm
  have hreleased : e'.released = true → e'.destructor = .finished := by
    rw [hsame.released, hsame.destructor]
    exact h.released state e he
  have hclosing (pc : CloserPc) (hpc : pc ≠ .idle) : t.closing = true ↔ pc ≠ .idle := ⟨fun _ => hpc, fun _ => h.closing.mpr hbusy⟩
  split
  · next hdone =>
    rw [hdone] at hagrees
    have hgone := hagrees.gone (.inr (.inr (.inr rfl)))
    refine h.setState he rfl hsame.topic hsame.message hsame.inDds ?_ hreleased ?_ ?_ rfl rfl rfl
      (hclosing _ CloserPc.noConfusion) (fun _ => h.taken hbusy) ?_
    · rw [@closerPc_between _ todo rfl]
      exact hagrees.returned
    · intro j hne
      rw [@closerPc_between _ todo rfl, closerPc_first hcloser, if_neg (Ne.symm hne)]
    · intro j hj hin
      rw [FastDdsTransport.listed, hcloser] at hj
      rcases List.mem_append.mp hj with hold | htodo
      · exact List.mem_append_left _ hold
      · rcases List.mem_cons.mp htodo with heq | hrest
        · rw [hgone] at hin
          exact absurd (hin heq) Bool.false_ne_true
        · exact List.mem_append_right _ hrest
    · intro todo pc hnext
      cases hnext
      exact ShutdownPc.noConfusion
  · next hmore =>
    refine h.setState he rfl hsame.topic hsame.message hsame.inDds ?_ hreleased ?_ ?_ rfl rfl rfl
      (hclosing _ CloserPc.noConfusion) (fun _ => h.taken hbusy) ?_
    · rw [@closerPc_first _ state todo pc' rfl, if_pos rfl]
      exact hagrees
    · intro j hne
      rw [@closerPc_first _ state todo pc' rfl, closerPc_first hcloser, if_neg (Ne.symm hne),
        if_neg (Ne.symm hne)]
    · intro j hj _
      rw [FastDdsTransport.listed, hcloser] at hj
      exact hj
    · intro todo pc hnext
      cases hnext
      exact hmore

/-- `Close` has no state left, so DDS has no entity. -/
theorem Inv.none_left {t : FastDdsTransport} (h : Inv t) {pc : ShutdownPc} (hcloser : t.closer = .shutting [] pc) :
    ∀ e ∈ t.states, e.inDds = false := by
  intro e hmem
  obtain ⟨i, hi⟩ := List.mem_iff_getElem?.mp hmem
  obtain ⟨-, hreaders, hwriters⟩ := h.taken (by rw [hcloser]; exact CloserPc.noConfusion)
  rw [← Bool.not_eq_true]
  intro hin
  have hlisted := h.listed i e hi hin
  rw [FastDdsTransport.listed, hreaders, hwriters, hcloser] at hlisted
  cases hlisted

/-- So it deletes every topic. -/
theorem Inv.topics_deleted {t : FastDdsTransport} (h : Inv t) {pc : ShutdownPc} (hcloser : t.closer = .shutting [] pc) :
    t.finishClose.ddsTopics = [] := by
  refine List.filter_eq_nil_iff.mpr fun topic htopic => ?_
  have hunused : t.entityUses topic = false := by
    refine List.any_eq_false.mpr fun e hmem => ?_
    rw [h.none_left hcloser e hmem]
    exact Bool.false_ne_true
  rw [h.ddsTopics] at htopic
  obtain ⟨entry, hentry, rfl⟩ := List.mem_map.mp htopic
  have hknown : (t.topics.any fun other => decide (other.1 = entry.1)) = true :=
    List.any_eq_true.mpr ⟨entry, hentry, decide_eq_true rfl⟩
  rw [hunused, hknown]
  exact Bool.false_ne_true

/-! ## Every move -/

theorem Inv.opens {t t' : FastDdsTransport} (h : Inv t) {creates : Bool}
    (hstep : t.step (.opens creates) = some t') : Inv t' := by
  simp only [FastDdsTransport.step, Option.ite_none_right_eq_some, Option.some.injEq] at hstep
  obtain ⟨hidle, rfl⟩ := hstep
  unfold openTransport
  dsimp only
  split
  · exact h
  · split
    · exact h
    · split
      · exact h
      · exact ⟨h.agrees, h.released, h.listed, h.topic, h.names, h.ddsTopics, fun hnone => (nomatch hnone), h.closing,
          fun hbusy => absurd hidle hbusy, h.running⟩

theorem Inv.createsEndpoint {t t' : FastDdsTransport} (h : Inv t) {kind : EndpointKind} {answers : Answers}
    {endpoint : EndpointConfig}
    (hstep : t.step (.creates kind answers endpoint) = some t') : Inv t' := by
  cases hstep
  exact h.create kind answers endpoint

theorem Inv.uses {t t' : FastDdsTransport} (h : Inv t) {i : Nat}
    (hstep : t.step (.uses i) = some t') : Inv t' := by
  simp only [FastDdsTransport.step, Option.bind_eq_bind, Option.bind_eq_some_iff, Option.ite_none_right_eq_some,
    Option.some.injEq] at hstep
  obtain ⟨e, he, ⟨-, hattached, -⟩, rfl⟩ := hstep
  have hagrees := h.agrees i e he
  exact h.changed he rfl rfl id ⟨hagrees.exclusive, hagrees.writer, hagrees.attached, fun _ => hattached, hagrees.listening,
    hagrees.owner, hagrees.owned, hagrees.gone⟩ (h.released i e he)

theorem Inv.usedEnds {t t' : FastDdsTransport} (h : Inv t) {i : Nat}
    (hstep : t.step (.used i) = some t') : Inv t' := by
  simp only [FastDdsTransport.step, Option.bind_eq_bind, Option.bind_eq_some_iff, Option.ite_none_right_eq_some,
    Option.some.injEq] at hstep
  obtain ⟨e, he, -, rfl⟩ := hstep
  have hagrees := h.agrees i e he
  exact h.changed he rfl rfl id ⟨hagrees.exclusive, hagrees.writer, hagrees.attached, fun hused => (nomatch hused),
    hagrees.listening, hagrees.owner, hagrees.owned, hagrees.gone⟩ (h.released i e he)

theorem Inv.hears {t t' : FastDdsTransport} (h : Inv t) {i : Nat}
    (hstep : t.step (.hears i) = some t') : Inv t' := by
  simp only [FastDdsTransport.step, Option.bind_eq_bind, Option.bind_eq_some_iff, Option.ite_none_right_eq_some,
    Option.some.injEq] at hstep
  obtain ⟨e, he, ⟨hkind, hin, -⟩, rfl⟩ := hstep
  have hagrees := h.agrees i e he
  refine h.changed he rfl rfl id ⟨hagrees.exclusive, fun hwriter => ?_, hagrees.attached, hagrees.used, fun _ => hin,
    hagrees.owner, hagrees.owned, hagrees.gone⟩ (h.released i e he)
  have hreader : EndpointKind.reader = .writer := hkind.symm.trans hwriter
  cases hreader

theorem Inv.heard {t t' : FastDdsTransport} (h : Inv t) {i : Nat}
    (hstep : t.step (.heard i) = some t') : Inv t' := by
  simp only [FastDdsTransport.step, Option.bind_eq_bind, Option.bind_eq_some_iff, Option.ite_none_right_eq_some,
    Option.some.injEq] at hstep
  obtain ⟨e, he, -, rfl⟩ := hstep
  have hagrees := h.agrees i e he
  exact h.changed he rfl rfl id ⟨hagrees.exclusive,
    fun hwriter => ⟨(hagrees.writer hwriter).1, (hagrees.writer hwriter).2.1, rfl⟩, hagrees.attached, hagrees.used,
    fun hlistening => (nomatch hlistening), hagrees.owner, hagrees.owned, hagrees.gone⟩ (h.released i e he)

theorem Inv.waits {t t' : FastDdsTransport} (h : Inv t) {i : Nat} {on : CallbackWait}
    (hstep : t.step (.waits i on) = some t') : Inv t' := by
  simp only [FastDdsTransport.step, Option.bind_eq_bind, Option.bind_eq_some_iff, Option.ite_none_right_eq_some,
    Option.some.injEq] at hstep
  obtain ⟨e, he, -, rfl⟩ := hstep
  have hagrees := h.agrees i e he
  exact h.changed he rfl rfl id ⟨hagrees.exclusive, hagrees.writer, hagrees.attached, hagrees.used, hagrees.listening,
    hagrees.owner, hagrees.owned, hagrees.gone⟩ (h.released i e he)

theorem Inv.goesOn {t t' : FastDdsTransport} (h : Inv t) {i : Nat}
    (hstep : t.step (.goesOn i) = some t') : Inv t' := by
  simp only [FastDdsTransport.step, Option.bind_eq_bind, Option.bind_eq_some_iff, Option.ite_none_right_eq_some,
    Option.some.injEq] at hstep
  obtain ⟨e, he, -, rfl⟩ := hstep
  have hagrees := h.agrees i e he
  exact h.changed he rfl rfl id ⟨hagrees.exclusive, hagrees.writer, hagrees.attached, hagrees.used, hagrees.listening,
    hagrees.owner, hagrees.owned, hagrees.gone⟩ (h.released i e he)

theorem Inv.destroys {t t' : FastDdsTransport} (h : Inv t) {i : Nat}
    (hstep : t.step (.destroys i) = some t') : Inv t' := by
  simp only [FastDdsTransport.step, Option.bind_eq_bind, Option.bind_eq_some_iff] at hstep
  obtain ⟨e, he, ⟨e', pc⟩, hshutdown, hset⟩ := hstep
  cases hset
  obtain ⟨hagrees, hsame⟩ := shutdown_agrees (h.agrees i e he) hshutdown
  refine h.changed he hsame.topic hsame.message hsame.inDds ⟨hagrees.exclusive, hagrees.writer, hagrees.attached, hagrees.used,
    hagrees.listening, hagrees.owner, hagrees.owned, hagrees.gone⟩ fun hreleased => ?_
  -- a destructor that returned has no section left
  have hdone := h.released i e he (hsame.released ▸ hreleased)
  rw [hdone] at hshutdown
  cases hkind : e.kind <;> simp [EndpointState.shutdown, hkind] at hshutdown

theorem Inv.releases {t t' : FastDdsTransport} (h : Inv t) {i : Nat}
    (hstep : t.step (.releases i) = some t') : Inv t' := by
  simp only [FastDdsTransport.step, Option.bind_eq_bind, Option.bind_eq_some_iff, Option.ite_none_right_eq_some,
    Option.some.injEq] at hstep
  obtain ⟨e, he, hdone, rfl⟩ := hstep
  have hagrees := h.agrees i e he
  exact h.changed he rfl rfl id ⟨hagrees.exclusive, hagrees.writer, hagrees.attached, hagrees.used, hagrees.listening,
    hagrees.owner, hagrees.owned, hagrees.gone⟩ fun _ => hdone

theorem Inv.closeBegins {t t' : FastDdsTransport} (h : Inv t)
    (hstep : t.step .closes = some t') : Inv t' := by
  simp only [FastDdsTransport.step, Option.ite_none_right_eq_some, Option.some.injEq] at hstep
  obtain ⟨⟨hidle, hopen⟩, rfl⟩ := hstep
  refine ⟨fun i e he => ?_, h.released, fun i e he hin => ?_, h.topic, h.names, h.ddsTopics, h.closed, ?_,
    fun _ => ⟨hopen, rfl, rfl⟩, fun todo pc hcloser => by cases hcloser; exact ShutdownPc.noConfusion⟩
  · have hagrees := h.agrees i e he
    rw [closerPc_idle hidle] at hagrees
    have hpc : closerPc { t with closing := true, readers := [], writers := [],
                                 closer := .shutting (t.readers ++ t.writers) .idle } i = .idle := by
      unfold closerPc
      split
      · split <;> simp_all
      · rfl
    rw [hpc]
    exact hagrees
  · have hmem := h.listed i e he hin
    rw [listed_idle hidle] at hmem
    exact hmem
  · simp

theorem Inv.closeShuts {t t' : FastDdsTransport} (h : Inv t)
    (hstep : t.step .shuts = some t') : Inv t' := by
  simp only [FastDdsTransport.step] at hstep
  split at hstep
  · next state todo pc hcloser =>
    split at hstep
    · next hnone =>
      cases hstep
      refine h.passed hcloser fun e he => ?_
      rw [hnone] at he
      cases he
    · next e he =>
      split at hstep
      · next hskipped =>
        cases hstep
        refine h.passed hcloser fun e' he' => ?_
        rw [he] at he'
        cases he'
        have hagrees := h.agrees state e he
        rw [closerPc_first hcloser, if_pos rfl, hskipped.1] at hagrees
        exact ⟨h.released_gone he hskipped.2, hagrees⟩
      · obtain ⟨⟨e', pc'⟩, hshutdown, rfl⟩ := Option.map_eq_some_iff.mp hstep
        exact h.shut hcloser he hshutdown
  · cases hstep

theorem Inv.closeEnds {t t' : FastDdsTransport} (h : Inv t)
    (hstep : t.step .closed = some t') : Inv t' := by
  simp only [FastDdsTransport.step] at hstep
  split at hstep
  · next pc hcloser =>
    cases hstep
    refine ⟨fun i e he => ?_, h.released, fun i e he hin => ?_, fun i e he hin => ?_, List.nodup_nil, h.topics_deleted hcloser,
      fun _ => rfl, ⟨fun hfalse => (nomatch hfalse), fun hbusy => absurd rfl hbusy⟩, fun hbusy => absurd rfl hbusy,
      fun todo pc hnext => (nomatch hnext)⟩
    · have hagrees := h.agrees i e he
      have hpc : t.closerPc i = .idle := by rw [closerPc, hcloser]
      rw [hpc] at hagrees
      exact hagrees
    · rw [h.none_left hcloser e (List.mem_of_getElem? he)] at hin
      cases hin
    · rw [h.none_left hcloser e (List.mem_of_getElem? he)] at hin
      cases hin
  · cases hstep

theorem Inv.step {t t' : FastDdsTransport} (h : Inv t) {move : Move} (hstep : t.step move = some t') : Inv t' := by
  cases move with
  | opens creates => exact h.opens hstep
  | creates kind answers endpoint => exact h.createsEndpoint hstep
  | uses i => exact h.uses hstep
  | used i => exact h.usedEnds hstep
  | hears i => exact h.hears hstep
  | heard i => exact h.heard hstep
  | waits i on => exact h.waits hstep
  | goesOn i => exact h.goesOn hstep
  | destroys i => exact h.destroys hstep
  | releases i => exact h.releases hstep
  | closes => exact h.closeBegins hstep
  | shuts => exact h.closeShuts hstep
  | closed => exact h.closeEnds hstep

theorem inv {t : FastDdsTransport} (h : t.Reached) : Inv t := by
  refine Reach.invariant ?_ (fun t move t' hinv _ hstep => hinv.step hstep) h
  rintro t ⟨options, rfl⟩
  exact ⟨fun i e he => (nomatch he), fun i e he => (nomatch he), fun i e he => (nomatch he), fun i e he => (nomatch he),
    List.nodup_nil, rfl, fun _ => rfl, ⟨fun hfalse => (nomatch hfalse), fun hbusy => absurd rfl hbusy⟩,
    fun hbusy => absurd rfl hbusy, fun todo pc hnext => (nomatch hnext)⟩

/-! ## What holds in every interleaving -/

/-- An entity that a thread may be using is in DDS; and what is in DDS has its participant and its
topic, which carries the type of the endpoint. DDS has the topics that the transport knows. -/
theorem entities_are_safe {t : FastDdsTransport} (h : t.Reached) :
    t.ddsTopics = t.topics.map (·.1) ∧ (t.topics.map (·.1)).Nodup ∧
      ∀ (i : Nat) (e : EndpointState), t.states[i]? = some e →
        (e.used = true ∨ e.listening = true → e.inDds = true) ∧
          (e.inDds = true → t.participant = true ∧ (e.topic, e.message) ∈ t.topics) := by
  have hinv := inv h
  refine ⟨hinv.ddsTopics, hinv.names, fun i e he => ?_⟩
  have hagrees := hinv.agrees i e he
  refine ⟨fun huse => ?_, fun hin => ⟨?_, hinv.topic i e he hin⟩⟩
  · rcases huse with hused | hlistening
    · exact hagrees.attached (hagrees.used hused)
    · exact hagrees.listening hlistening
  · rw [← Bool.not_eq_false]
    intro hclosed
    have hmem := hinv.topic i e he hin
    rw [hinv.closed hclosed] at hmem
    cases hmem

/-- A reader whose listener runs, and a writer, while `Close` gets to the deletion of the reader. -/
def listenedTo : List Move :=
  let topic : TopicSpec := { name := text "scan", transport := .fastDds, messagePolicy := {} }
  let endpoint : EndpointConfig := { topic, message := { typeName := text "Scan", encoding := text "portable", version := 1 } }
  [.opens true, .creates .reader {} endpoint, .creates .writer {} endpoint, .hears 0, .closes, .shuts, .shuts]

theorem entities_are_safe_listenedTo :
    ∃ t : FastDdsTransport, t.Reached ∧ t.states.map (·.listening) = [true, false] ∧ ∃ e, t.states[0]? = some e
    ∧ e.inDds = true := by
  obtain ⟨t, hreached, hlistening⟩ := @reach_of_run _ _ FastDdsTransport.step FastDdsTransport.Fresh _ listenedTo
    (fun t => decide (t.states.map (·.listening) = [true, false])) ⟨{}, rfl⟩ (by decide +kernel)
  have hstates := of_decide_eq_true hlistening
  obtain ⟨e, he, hlistens⟩ : ∃ e, t.states[0]? = some e ∧ e.listening = true := by
    have hfirst := congrArg (·[0]?) hstates
    simpa using hfirst
  exact ⟨t, hreached, hstates, e, he, ((entities_are_safe hreached).2.2 0 e he).1 (.inr hlistens)⟩

/-- When `Close` gets to its last section DDS has no entity left, and deletes every topic. -/
theorem close_leaves_nothing {t : FastDdsTransport} (h : t.Reached) {pc : ShutdownPc} (hcloser : t.closer = .shutting [] pc) :
    (∀ e ∈ t.states, e.inDds = false) ∧ t.finishClose.ddsTopics = [] :=
  ⟨(inv h).none_left hcloser, (inv h).topics_deleted hcloser⟩

theorem close_leaves_nothing_listenedTo :
    ∃ t : FastDdsTransport, t.Reached ∧ t.topics.length = 1 ∧ (∀ e ∈ t.states, e.inDds = false)
    ∧ t.finishClose.ddsTopics = [] := by
  obtain ⟨t, hreached, hend⟩ := @reach_of_run _ _ FastDdsTransport.step FastDdsTransport.Fresh _
    (listenedTo ++ [.heard 0, .shuts, .shuts]) (fun t => decide (t.topics.length = 1 ∧ t.closer = .shutting [] .idle))
    ⟨{}, rfl⟩ (by decide +kernel)
  obtain ⟨htopics, hcloser⟩ := of_decide_eq_true hend
  exact ⟨t, hreached, htopics, close_leaves_nothing hreached hcloser⟩

/-! ## Close ends -/

/-- The moves that begin nothing new. -/
inductive Finishing : Move → Prop
  | used (i : Nat) : Finishing (.used i)
  | heard (i : Nat) : Finishing (.heard i)
  | destroys (i : Nat) : Finishing (.destroys i)
  | shuts : Finishing .shuts
  | closed : Finishing .closed

def ShutdownPc.sections : ShutdownPc → Nat
  | .idle => 3
  | .locked => 2
  | .detached _ => 1
  | .finished => 0

/-- The sections that the operations, listener calls and destructors of a state still have. -/
def EndpointState.work (e : EndpointState) : Nat := e.destructor.sections + e.used.toNat + e.listening.toNat

def CloserPc.work : CloserPc → Nat
  | .idle => 0
  | .shutting todo pc => 4 * todo.length + pc.sections + 1

def FastDdsTransport.work (t : FastDdsTransport) : Nat := (t.states.map EndpointState.work).sum + t.closer.work

theorem shutdown_sections {e e' : EndpointState} {pc pc' other : ShutdownPc} (h : e.shutdown pc other = some (e', pc')) :
    pc'.sections < pc.sections ∧ e'.used = e.used ∧ e'.listening = e.listening ∧ e'.waiting = e.waiting := by
  unfold EndpointState.shutdown at h
  split at h
  · split at h
    · cases h
    · cases h
      exact ⟨by decide, rfl, rfl, rfl⟩
  · split at h
    · cases h
    · cases h
      exact ⟨by decide, rfl, rfl, rfl⟩
  · split at h
    · cases h
    · cases h
      exact ⟨Nat.lt_succ_self 1, rfl, rfl, rfl⟩
  · split at h
    · cases h
    · cases h
      exact ⟨Nat.lt_succ_self 0, rfl, rfl, rfl⟩
  · cases h

/-- What keeps a `Shutdown` from its next section: an operation, a listener call, or the other call. -/
theorem shutdown_waits {e : EndpointState} {mine other : ShutdownPc} (h : Agrees e mine other) (hopen : mine ≠ .finished)
    (hstuck : e.shutdown mine other = none) :
    e.used = true ∨ e.listening = true ∨ mine.holdsMutex = false ∧ other.holdsMutex = true := by
  unfold EndpointState.shutdown at hstuck
  split at hstuck
  · split at hstuck
    · next hused => exact .inl hused
    · cases hstuck
  · split at hstuck
    · next hheld => exact .inr (.inr ⟨rfl, hheld⟩)
    · cases hstuck
  · split at hstuck
    · next hused => exact .inl hused
    · cases hstuck
  · split at hstuck
    · next hwaits => exact .inr (.inl (Bool.and_eq_true_iff.mp hwaits).2)
    · cases hstuck
  · next now _ _ hwriter hidle hlocked hdetached =>
    cases hkind : e.kind with
    | writer =>
      have hfree := (h.writer hkind).1
      cases now with
      | idle => exact absurd rfl (hwriter hkind)
      | finished => exact absurd rfl hopen
      | locked => cases hfree
      | detached owns => cases hfree
    | reader =>
      cases now with
      | idle => exact absurd rfl (hidle hkind)
      | finished => exact absurd rfl hopen
      | locked => exact absurd rfl (hlocked hkind)
      | detached owns => exact absurd rfl (hdetached owns hkind)

/-- A state that is used or listened to, or whose destructor holds the mutex, can take a section. -/
theorem state_moves {t : FastDdsTransport} {i : Nat} {e e' : EndpointState} {move : Move} (hfinishing : Finishing move)
    (he : t.states[i]? = some e) (hstep : t.step move = some (t.setState i e')) (hless : e'.work < e.work) :
    ∃ move t', Finishing move ∧ t.step move = some t' ∧ t'.work < t.work := by
  refine ⟨move, _, hfinishing, hstep, ?_⟩
  have hsum := sum_set_exchange (w := EndpointState.work) e' he
  simp only [FastDdsTransport.work, FastDdsTransport.setState]
  omega

theorem used_moves {t : FastDdsTransport} {i : Nat} {e : EndpointState} (he : t.states[i]? = some e) (hused : e.used = true) :
    ∃ move t', Finishing move ∧ t.step move = some t' ∧ t'.work < t.work := by
  refine @state_moves _ _ _ { e with used := false } _ (.used i) he ?_ ?_
  · simp only [FastDdsTransport.step, he, Option.bind_eq_bind, Option.bind_some, if_pos hused]
  · simp only [EndpointState.work, hused, Bool.toNat_true, Bool.toNat_false]
    omega

theorem listening_moves {t : FastDdsTransport} {i : Nat} {e : EndpointState} (he : t.states[i]? = some e)
    (hlistening : e.listening = true) (hwaiting : e.waiting = none) :
    ∃ move t', Finishing move ∧ t.step move = some t' ∧ t'.work < t.work := by
  refine @state_moves _ _ _ { e with listening := false } _ (.heard i) he ?_ ?_
  · simp only [FastDdsTransport.step, he, Option.bind_eq_bind, Option.bind_some, hlistening, hwaiting, and_self, if_true]
  · simp only [EndpointState.work, hlistening, Bool.toNat_true, Bool.toNat_false]
    omega

/-! No callback waits, where none calls what may wait. -/

theorem sweepTopics_states (t : FastDdsTransport) (answers : Answers) : (t.sweepTopics answers).states = t.states := rfl

/-- While `Close` runs and no callback waits, it or what it waits for has a section to run. -/
theorem Inv.moves {t : FastDdsTransport} (h : Inv t) (hfree : ∀ e ∈ t.states, e.waiting = none) (hbusy : t.closer ≠ .idle) :
    ∃ move t', Finishing move ∧ t.step move = some t' ∧ t'.work < t.work := by
  cases hcloser : t.closer with
  | idle => exact absurd hcloser hbusy
  | shutting todo pc =>
    cases todo with
    | nil =>
      refine ⟨.closed, t.finishClose, .closed, by simp only [FastDdsTransport.step, hcloser], ?_⟩
      simp only [FastDdsTransport.work, finishClose, hcloser, CloserPc.work]
      omega
    | cons state todo =>
      have hpassed : (CloserPc.shutting todo .idle).work < t.closer.work := by
        simp only [hcloser, CloserPc.work, List.length_cons, ShutdownPc.sections]
        omega
      cases he : t.states[state]? with
      | none =>
        refine ⟨.shuts, { t with closer := .shutting todo .idle }, .shuts, by simp only [FastDdsTransport.step, hcloser, he], ?_⟩
        exact Nat.add_lt_add_left hpassed _
      | some e =>
        by_cases hskipped : pc = .idle ∧ e.released = true
        · refine ⟨.shuts, { t with closer := .shutting todo .idle }, .shuts,
            by simp only [FastDdsTransport.step, hcloser, he, if_pos hskipped], ?_⟩
          exact Nat.add_lt_add_left hpassed _
        · have hagrees := h.agrees state e he
          rw [closerPc_first hcloser, if_pos rfl] at hagrees
          cases hshutdown : e.shutdown pc e.destructor with
          | some result =>
            obtain ⟨e', pc'⟩ := result
            obtain ⟨hsections, hused, hlistening, -⟩ := shutdown_sections hshutdown
            have hsame := (shutdown_agrees hagrees.symm hshutdown).2
            refine ⟨.shuts, { t.setState state e' with
                closer := if pc' = .finished then .shutting todo .idle else .shutting (state :: todo) pc' }, .shuts, ?_, ?_⟩
            · simp only [FastDdsTransport.step, hcloser, he, if_neg hskipped, hshutdown, Option.map_some]
            have hsum := sum_set_exchange (w := EndpointState.work) e' he
            have hwork : e'.work = e.work := by simp only [EndpointState.work, hsame.destructor, hused, hlistening]
            simp only [FastDdsTransport.work, FastDdsTransport.setState]
            split
            · omega
            · simp only [hcloser, CloserPc.work]
              omega
          | none =>
            rcases shutdown_waits hagrees.symm (h.running _ _ hcloser) hshutdown with hused | hlistening | ⟨-, hheld⟩
            · exact used_moves he hused
            · exact listening_moves he hlistening (hfree e (List.mem_of_getElem? he))
            · -- the destructor holds the mutex, so it is its turn
              have hopen : e.destructor ≠ .finished := by
                intro hdone
                rw [hdone] at hheld
                cases hheld
              cases hdestroys : e.shutdown e.destructor pc with
              | some result =>
                obtain ⟨e', pc'⟩ := result
                obtain ⟨hsections, hused, hlistening, -⟩ := shutdown_sections hdestroys
                refine @state_moves _ _ _ { e' with destructor := pc' } _ (.destroys state) he ?_ ?_
                · simp only [FastDdsTransport.step, he, Option.bind_eq_bind, Option.bind_some, closerPc_first hcloser, if_true,
                    hdestroys]
                  rfl
                · simp only [EndpointState.work, hused, hlistening]
                  omega
              | none =>
                rcases shutdown_waits hagrees hopen hdestroys with hused | hlistening | ⟨hfree, -⟩
                · exact used_moves he hused
                · exact listening_moves he hlistening (hfree e (List.mem_of_getElem? he))
                · rw [hheld] at hfree
                  cases hfree

end PuppetMaster.FastDds
