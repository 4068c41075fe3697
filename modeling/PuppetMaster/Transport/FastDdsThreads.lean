/-
  PuppetMaster.Transport.FastDdsThreads — `Close` of the FastDDS transport ends.

  The transport's model leaves open how an operation or a listener call gets to its end; the
  threads of one reader are in `PuppetMaster.Transport.FastDdsReads`. `Closes` connects the two:
  while `Close` is at a reader, every section of the reader's threads is a move of the transport or
  none (`Closes.step`). So where the reader's threads can finish (`Reads.reads_can_finish`) the
  `Shutdown` that `Close` waits for ends (`Closes.ends`).

  - `close_can_finish`: as long as no data callback calls `Open`, `Close` or the destructor of its
    reader, what has begun brings `Close` to its end.
  - `close_waits_forever`: a callback that calls `Open` or `Close` while `Close` is at its reader
    waits for `lifecycle_mutex`, and `Close` for it.
-/

import PuppetMaster.Transport.FastDdsProofs
import PuppetMaster.Transport.FastDdsReadsProofs

namespace PuppetMaster.FastDds

open PuppetMaster.Core PuppetMaster.Lib FastDdsTransport

/-! ## A reader as the transport sees it -/

/-- Where the transport's call of `Shutdown` is. -/
def Reads.CloserPc.shutdown : Reads.CloserPc → ShutdownPc
  | .idle => .idle
  | .closed => .idle
  | .notified => .locked
  | .detached => .detached true
  | .finished => .finished

structure Shows (e : EndpointState) (s : Reads.ReaderState) : Prop where
  kind : e.kind = .reader
  used : e.used = s.entityMutex.isSome
  listening : e.listening = decide (s.listener ≠ .idle)
  attached : e.attached = s.attached
  inDds : e.inDds = decide (s.closer.shutdown ≠ .finished)
  destructor : e.destructor = .idle
  held : e.released = false
  waiting : e.waiting = none

/-- `Close` is at this reader, or has just finished with it. -/
structure Closes (t : FastDdsTransport) (state : Nat) (todo : List Nat) (s : Reads.ReaderState) : Prop where
  endpoint : ∃ e, t.states[state]? = some e ∧ Shows e s
  closer : t.closer = if s.closer.shutdown = .finished then .shutting todo .idle
    else .shutting (state :: todo) s.closer.shutdown

/-- The moves of one reader, and of `Close` at it. -/
inductive OfReader (state : Nat) : Move → Prop
  | uses : OfReader state (.uses state)
  | used : OfReader state (.used state)
  | hears : OfReader state (.hears state)
  | heard : OfReader state (.heard state)
  | shuts : OfReader state .shuts

/-- The transport can follow: by moves of the reader to a state that shows `s`. -/
def Follows (t : FastDdsTransport) (state : Nat) (todo : List Nat) (s : Reads.ReaderState) : Prop :=
  ∃ moves t', (∀ move ∈ moves, OfReader state move) ∧ run FastDdsTransport.step t moves = some t' ∧ Closes t' state todo s

section follows

variable {t t' : FastDdsTransport} {state : Nat} {todo : List Nat} {s s' : Reads.ReaderState} {e e' : EndpointState}

theorem Follows.here (h : Closes t state todo s) : Follows t state todo s := ⟨[], t, fun _ hmem => (nomatch hmem), rfl, h⟩

theorem Follows.after (u : FastDdsTransport) {move : Move} (hmove : OfReader state move) (hstep : t.step move = some u)
    (h : Closes u state todo s) : Follows t state todo s := by
  refine ⟨[move], u, fun other hmem => ?_, ?_, h⟩
  · rw [List.mem_singleton.mp hmem]
    exact hmove
  · rw [run, hstep]
    rfl

/-- What the transport does not see changes nothing for it. -/
theorem Closes.still (h : Closes t state todo s) (hmutex : s'.entityMutex.isSome = s.entityMutex.isSome)
    (hlistener : decide (s'.listener ≠ .idle) = decide (s.listener ≠ .idle)) (hattached : s'.attached = s.attached)
    (hcloser : s'.closer.shutdown = s.closer.shutdown) : Closes t state todo s' := by
  obtain ⟨e, he, hshows⟩ := h.endpoint
  refine ⟨⟨e, he, hshows.kind, ?_, ?_, ?_, ?_, hshows.destructor, hshows.held, hshows.waiting⟩, ?_⟩
  · rw [hmutex, hshows.used]
  · rw [hlistener, hshows.listening]
  · rw [hattached, hshows.attached]
  · rw [hcloser, hshows.inDds]
  · rw [hcloser, h.closer]

/-- A move of the reader that `Close` does not make. -/
theorem Closes.moved (h : Closes t state todo s) (he : t.states[state]? = some e) (hshows : Shows e' s')
    (hcloser : s'.closer.shutdown = s.closer.shutdown) : Closes (t.setState state e') state todo s' := by
  have hlt := (List.getElem?_eq_some_iff.mp he).1
  refine ⟨⟨e', List.getElem?_set_self hlt, hshows⟩, ?_⟩
  rw [hcloser]
  exact h.closer

theorem Closes.lets_go (h : Closes t state todo s) (i : Nat) (rest : Reads.ReaderState → Reads.ReaderState)
    (hmutex : ∀ u, (rest u).entityMutex = u.entityMutex) (hlistener : ∀ u, (rest u).listener = u.listener)
    (hattached : ∀ u, (rest u).attached = u.attached) (hcloser : ∀ u, (rest u).closer = u.closer) :
    Follows t state todo (rest (s.unlock i)) := by
  by_cases hown : s.entityMutex = some i
  · obtain ⟨e, he, hshows⟩ := h.endpoint
    have hused : e.used = true := by
      rw [hshows.used, hown]
      rfl
    have hfree : (rest (s.unlock i)).entityMutex = none := by
      rw [hmutex]
      exact if_pos hown
    refine .after (t.setState state { e with used := false }) .used ?_ (h.moved he ?_ ?_)
    · simp only [FastDdsTransport.step, he, Option.bind_eq_bind, Option.bind_some, if_pos hused]
    · refine ⟨hshows.kind, ?_, ?_, ?_, ?_, hshows.destructor, hshows.held, hshows.waiting⟩
      · rw [hfree]
        rfl
      · rw [hlistener]
        exact hshows.listening
      · rw [hattached]
        exact hshows.attached
      · rw [hcloser]
        exact hshows.inDds
    · rw [hcloser]
      rfl
  · have hsame : (s.unlock i).entityMutex = s.entityMutex := if_neg hown
    refine .here (h.still ?_ ?_ ?_ ?_)
    · rw [hmutex, hsame]
    · rw [hlistener]
      rfl
    · rw [hattached]
      rfl
    · rw [hcloser]
      rfl

/-- The end of a listener call. -/
theorem Closes.heard (h : Closes t state todo s) (hbusy : s.listener ≠ .idle) (hidle : s'.listener = .idle)
    (hmutex : s'.entityMutex = s.entityMutex) (hattached : s'.attached = s.attached) (hcloser : s'.closer = s.closer) :
    Follows t state todo s' := by
  obtain ⟨e, he, hshows⟩ := h.endpoint
  have hlistening : e.listening = true := by
    rw [hshows.listening]
    exact decide_eq_true hbusy
  refine .after (t.setState state { e with listening := false }) .heard ?_ (h.moved he ?_ ?_)
  · simp only [FastDdsTransport.step, he, Option.bind_eq_bind, Option.bind_some, hlistening, hshows.waiting, and_self, if_true]
  · refine ⟨hshows.kind, ?_, ?_, ?_, ?_, hshows.destructor, hshows.held, hshows.waiting⟩
    · rw [hmutex]
      exact hshows.used
    · rw [hidle]
      rfl
    · rw [hattached]
      exact hshows.attached
    · rw [hcloser]
      exact hshows.inDds
  · rw [hcloser]

/-- A section of `Shutdown`. -/
theorem Closes.shuts (h : Closes t state todo s) (hopen : s.closer.shutdown ≠ .finished)
    (hshutdown : ∀ e, Shows e s → ∃ e', e.shutdown s.closer.shutdown .idle = some (e', s'.closer.shutdown) ∧ Shows e' s') :
    Follows t state todo s' := by
  obtain ⟨e, he, hshows⟩ := h.endpoint
  obtain ⟨e', hsection, hafter⟩ := hshutdown e hshows
  have hlt := (List.getElem?_eq_some_iff.mp he).1
  have hcloser := h.closer
  rw [if_neg hopen] at hcloser
  have hheld : ¬ (s.closer.shutdown = .idle ∧ e.released = true) := by
    rw [hshows.held]
    exact fun hboth => Bool.false_ne_true hboth.2
  refine .after ({ t.setState state e' with
      closer := if s'.closer.shutdown = .finished then .shutting todo .idle else .shutting (state :: todo) s'.closer.shutdown })
    .shuts ?_ ⟨⟨e', List.getElem?_set_self hlt, hafter⟩, rfl⟩
  simp only [FastDdsTransport.step, hcloser, he, if_neg hheld, hshows.destructor, hsection, Option.map_some]

/-- Each section of the reader's threads is a move of the transport, or none. -/
theorem Closes.step (h : Closes t state todo s) (hclosing : Reads.Closing s) {move : Reads.Move} (hstep : Reads.Step s move s') :
    Follows t state todo s' := by
  cases hstep with
  | goes => exact .here (h.still rfl rfl rfl rfl)
  | locks _ _ hfree hattached =>
    rename_i i o g _ _
    obtain ⟨e, he, hshows⟩ := h.endpoint
    have hunused : e.used = false := by
      rw [hshows.used, hfree]
      rfl
    have htaken : e.attached = true := hshows.attached.trans hattached
    refine .after (t.setState state { e with used := true }) .uses ?_ (h.moved he ?_ rfl)
    · simp only [FastDdsTransport.step, he, Option.bind_eq_bind, Option.bind_some, hshows.destructor, htaken, hunused,
        Bool.not_false, and_self, if_true]
    · exact ⟨hshows.kind, rfl, hshows.listening, hshows.attached, hshows.inDds, hshows.destructor, hshows.held, hshows.waiting⟩
  | misses =>
    rename_i i o g _ _ _ _
    exact h.lets_go i (fun u => u.setThread i (.missed o g)) (fun _ => rfl) (fun _ => rfl) (fun _ => rfl) fun _ => rfl
  | returns =>
    rename_i i o g _ _ _ _
    exact h.lets_go i (fun u => u.setThread i (.outside (some (.error Reads.noMessage)))) (fun _ => rfl) (fun _ => rfl)
      (fun _ => rfl) fun _ => rfl
  | takes => exact .here (h.still rfl rfl rfl rfl)
  | skips => exact .here (h.still rfl rfl rfl rfl)
  | numbers =>
    rename_i i o sample _
    have hnumbered : Closes t state todo { s with
        sequence := s.sequence + 1
        delivered := s.delivered ++ [{ sequence := s.sequence + 1, sample }] } := h.still rfl rfl rfl rfl
    exact hnumbered.lets_go i (fun u => u.setThread i (.outside (some (.ok { sequence := s.sequence + 1, sample }))))
      (fun _ => rfl) (fun _ => rfl) (fun _ => rfl) fun _ => rfl
  | setsCallback =>
    split
    · exact .here h
    · exact .here (h.still rfl rfl rfl rfl)
  | arrives => exact .here (h.still rfl rfl rfl rfl)
  | drops => exact .here (h.still rfl rfl rfl rfl)
  | passes => exact .here (h.still rfl rfl rfl rfl)
  | hears _ _ hthere hidle =>
    obtain ⟨e, he, hshows⟩ := h.endpoint
    have hin : e.inDds = true := by
      rw [hshows.inDds]
      cases hcloser : s.closer with
      | finished => exact absurd hcloser hthere
      | _ => rfl
    have hsilent : e.listening = false := by
      rw [hshows.listening, hidle]
      rfl
    refine .after (t.setState state { e with listening := true }) .hears ?_ (h.moved he ?_ rfl)
    · simp only [FastDdsTransport.step, he, Option.bind_eq_bind, Option.bind_some, hshows.kind, hin, hsilent, Bool.not_false,
        and_self, if_true]
    · exact ⟨hshows.kind, hshows.used, rfl, hshows.attached, hshows.inDds, hshows.destructor, hshows.held, hshows.waiting⟩
  | notifies hlistener =>
    rename_i i callback
    have hbusy : s.listener ≠ .idle := by
      rw [hlistener]
      exact Reads.ListenerPc.noConfusion
    cases callback with
    | true =>
      refine .here (h.still rfl ?_ rfl rfl)
      rw [hlistener]
      rfl
    | false => exact h.heard hbusy rfl rfl rfl rfl
  | heard hlistener =>
    refine h.heard ?_ rfl rfl rfl rfl
    rw [hlistener]
    exact Reads.ListenerPc.noConfusion
  | closes hidle =>
    refine .here (h.still rfl rfl rfl ?_)
    rw [hidle]
    rfl
  | notifiesClosed hclosed =>
    refine h.shuts (by rw [hclosed]; exact ShutdownPc.noConfusion) fun e hshows => ⟨e, ?_, ?_⟩
    · simp only [hclosed, Reads.CloserPc.shutdown, EndpointState.shutdown, hshows.kind]
      rfl
    · refine ⟨hshows.kind, hshows.used, hshows.listening, hshows.attached, ?_, hshows.destructor, hshows.held, hshows.waiting⟩
      rw [hshows.inDds, hclosed]
      rfl
  | detaches hnotified hfree =>
    refine h.shuts (by rw [hnotified]; exact ShutdownPc.noConfusion) fun e hshows => ⟨{ e with attached := false }, ?_, ?_⟩
    · have hattached : e.attached = true := by
        rw [hshows.attached, ← Bool.not_eq_false]
        intro hgone
        rcases hclosing.attached hgone with hcloser | hcloser <;> rw [hnotified] at hcloser <;> cases hcloser
      have hunused : e.used = false := by
        rw [hshows.used, hfree]
        rfl
      simp only [hnotified, Reads.CloserPc.shutdown, EndpointState.shutdown, hshows.kind, hunused, hattached,
        Bool.false_eq_true, if_false]
    · refine ⟨hshows.kind, hshows.used, hshows.listening, rfl, ?_, hshows.destructor, hshows.held, hshows.waiting⟩
      rw [hshows.inDds, hnotified]
      rfl
  | deletes hdetached hidle =>
    refine h.shuts (by rw [hdetached]; exact ShutdownPc.noConfusion) fun e hshows => ⟨{ e with inDds := false }, ?_, ?_⟩
    · have hsilent : e.listening = false := by
        rw [hshows.listening, hidle]
        rfl
      simp only [hdetached, Reads.CloserPc.shutdown, EndpointState.shutdown, hshows.kind, hsilent, Bool.and_false,
        Bool.false_eq_true, if_false, Bool.not_true]
    · exact ⟨hshows.kind, hshows.used, hshows.listening, hshows.attached, rfl, hshows.destructor, hshows.held, hshows.waiting⟩

theorem Follows.trans (h : ∀ u, Closes u state todo s → Follows u state todo s') (hbefore : Follows t state todo s) :
    Follows t state todo s' := by
  obtain ⟨moves, u, hmoves, hrun, hcloses⟩ := hbefore
  obtain ⟨more, t', hmore, hrest, hafter⟩ := h u hcloses
  refine ⟨moves ++ more, t', fun move hmem => ?_, ?_, hafter⟩
  · exact (List.mem_append.mp hmem).elim (hmoves move) (hmore move)
  · rw [run_append, hrun]
    exact hrest

/-- And so a run of them is a run of the transport. -/
theorem Closes.run {moves : List Reads.Move} (h : Closes t state todo s) (hs : Reads.Reached Reads.callbacksDoNotWait s)
    (hmoves : ∀ move ∈ moves, Reads.Finishing move) (hrun : run Reads.step s moves = some s') : Follows t state todo s' := by
  induction moves generalizing t s with
  | nil =>
    cases hrun
    exact .here h
  | cons move moves ih =>
    obtain ⟨u, hu, hrest⟩ := run_cons hrun
    have hreached : Reads.Reached Reads.callbacksDoNotWait u :=
      .step move hs (Reads.finishing_ok (hmoves move List.mem_cons_self)) hu
    exact .trans (fun v hv => ih hv hreached (fun other hmem => hmoves other (List.mem_cons_of_mem _ hmem)) hrest)
      (h.step (Reads.inv hs).closing (Reads.step_cases hu))

theorem closer_begun {moves : List Reads.Move} (hrun : run Reads.step s moves = some s') (hbegun : s.closer ≠ .idle) :
    s'.closer ≠ .idle := by
  induction moves generalizing s with
  | nil =>
    cases hrun
    exact hbegun
  | cons move moves ih =>
    obtain ⟨u, hu, hrest⟩ := run_cons hrun
    refine ih hrest ?_
    cases Reads.step_cases hu with
    | setsCallback => split <;> exact hbegun
    | closes | notifiesClosed | detaches | deletes => exact Reads.CloserPc.noConfusion
    | _ => exact hbegun

/-- While no callback waits in a Read, the `Shutdown` that `Close` has called on a reader ends. -/
theorem Closes.ends (h : Closes t state todo s) (hs : Reads.Reached Reads.callbacksDoNotWait s) (hbegun : s.closer ≠ .idle) :
    ∃ moves t', (∀ move ∈ moves, OfReader state move) ∧ Lib.run FastDdsTransport.step t moves = some t'
      ∧ t'.closer = .shutting todo .idle := by
  obtain ⟨moves, s', hmoves, hrun, -, hcloser, -⟩ := Reads.reads_can_finish hs
  obtain ⟨more, t', hmore, hfollowed, hcloses⟩ := h.run hs hmoves hrun
  have hfinished : s'.closer = .finished := hcloser.resolve_left (closer_begun hrun hbegun)
  refine ⟨more, t', hmore, hfollowed, ?_⟩
  rw [hcloses.closer, hfinished]
  rfl

end follows

/-- A data callback of this reader waits for `lifecycle_mutex`. -/
structure EndpointState.InLifecycle (e : EndpointState) : Prop where
  kind : e.kind = .reader
  inDds : e.inDds = true
  listening : e.listening = true
  waiting : e.waiting = some .lifecycle

/-- `Close` still has this reader to shut down. -/
structure WaitsFor (t : FastDdsTransport) (state : Nat) : Prop where
  listed : ∃ todo pc, t.closer = .shutting todo pc ∧ state ∈ todo
  endpoint : ∃ e, t.states[state]? = some e ∧ e.InLifecycle

section stuck

variable {t t' : FastDdsTransport} {state i : Nat} {e e' : EndpointState}

theorem WaitsFor.busy (h : WaitsFor t state) : t.closer ≠ .idle := by
  obtain ⟨todo, pc, hcloser, -⟩ := h.listed
  rw [hcloser]
  exact CloserPc.noConfusion

/-- A section of `Shutdown` does not get past the deletion. -/
theorem EndpointState.InLifecycle.shutdown (h : e.InLifecycle) {pc pc' other : ShutdownPc}
    (hstep : e.shutdown pc other = some (e', pc')) : e'.InLifecycle ∧ (pc' = .finished → pc = .detached false) := by
  unfold EndpointState.shutdown at hstep
  rw [h.kind] at hstep
  cases pc with
  | idle =>
    simp only at hstep
    split at hstep
    · cases hstep
    · cases hstep
      exact ⟨h, fun hfinished => (nomatch hfinished)⟩
  | locked =>
    simp only at hstep
    split at hstep
    · cases hstep
    · cases hstep
      exact ⟨⟨rfl, h.inDds, h.listening, h.waiting⟩, fun hfinished => (nomatch hfinished)⟩
  | detached owns =>
    cases owns with
    | true =>
      simp only [h.listening, Bool.and_self, if_true] at hstep
      cases hstep
    | false =>
      simp only [Bool.false_and, Bool.false_eq_true, if_false, Bool.not_false, Bool.and_true] at hstep
      cases hstep
      exact ⟨⟨rfl, h.inDds, h.listening, h.waiting⟩, fun _ => rfl⟩
  | finished => cases hstep

theorem WaitsFor.set (h : WaitsFor t state) (he : t.states[i]? = some e) (hkeeps : e.InLifecycle → e'.InLifecycle) :
    ∃ f, (t.states.set i e')[state]? = some f ∧ f.InLifecycle := by
  obtain ⟨f, hf, hwaits⟩ := h.endpoint
  rw [getElem?_set_cases he]
  by_cases heq : state = i
  · subst heq
    rw [he] at hf
    cases hf
    exact ⟨e', if_pos rfl, hkeeps hwaits⟩
  · exact ⟨f, (if_neg heq).trans hf, hwaits⟩

theorem create_closing (hclosing : t.closing = true) (kind : EndpointKind) (answers : Answers) (endpoint : EndpointConfig) :
    (t.create kind answers endpoint).2 = t := by
  have hclosed : t.isOpen = false := by
    rw [isOpen, hclosing]
    exact Bool.and_false _
  unfold FastDdsTransport.create
  dsimp only
  split
  · rfl
  · rw [hclosed]
    rfl

theorem WaitsFor.step (h : WaitsFor t state) (hinv : Inv t) {move : Move} (hstep : t.step move = some t') :
    WaitsFor t' state := by
  have hbusy := h.busy
  cases move with
  | opens creates =>
    simp only [FastDdsTransport.step, Option.ite_none_right_eq_some] at hstep
    exact absurd hstep.1 hbusy
  | creates kind answers endpoint =>
    cases hstep
    rw [create_closing (hinv.closing.mpr hbusy)]
    exact h
  | closes =>
    simp only [FastDdsTransport.step, Option.ite_none_right_eq_some] at hstep
    exact absurd hstep.1.1 hbusy
  | uses i | used i | releases i =>
    simp only [FastDdsTransport.step, Option.bind_eq_bind, Option.bind_eq_some_iff, Option.ite_none_right_eq_some,
      Option.some.injEq] at hstep
    obtain ⟨e, he, -, rfl⟩ := hstep
    exact ⟨h.listed, h.set he fun hwaits => ⟨hwaits.kind, hwaits.inDds, hwaits.listening, hwaits.waiting⟩⟩
  | hears i =>
    simp only [FastDdsTransport.step, Option.bind_eq_bind, Option.bind_eq_some_iff, Option.ite_none_right_eq_some,
      Option.some.injEq] at hstep
    obtain ⟨e, he, -, rfl⟩ := hstep
    exact ⟨h.listed, h.set he fun hwaits => ⟨hwaits.kind, hwaits.inDds, rfl, hwaits.waiting⟩⟩
  | heard i | waits i on =>
    simp only [FastDdsTransport.step, Option.bind_eq_bind, Option.bind_eq_some_iff, Option.ite_none_right_eq_some,
      Option.some.injEq] at hstep
    obtain ⟨e, he, ⟨-, hfree⟩, rfl⟩ := hstep
    refine ⟨h.listed, h.set he fun hwaits => ?_⟩
    rw [hwaits.waiting] at hfree
    cases hfree
  | goesOn i =>
    simp only [FastDdsTransport.step, Option.bind_eq_bind, Option.bind_eq_some_iff, Option.ite_none_right_eq_some,
      Option.some.injEq] at hstep
    obtain ⟨e, he, hends, rfl⟩ := hstep
    refine ⟨h.listed, h.set he fun hwaits => ?_⟩
    rcases hends with ⟨-, hidle⟩ | ⟨hother, -⟩
    · exact absurd hidle hbusy
    · rw [hwaits.waiting] at hother
      cases hother
  | destroys i =>
    simp only [FastDdsTransport.step, Option.bind_eq_bind, Option.bind_eq_some_iff] at hstep
    obtain ⟨e, he, ⟨e', pc⟩, hshutdown, hset⟩ := hstep
    cases hset
    refine ⟨h.listed, h.set he fun hwaits => ?_⟩
    have hafter := (hwaits.shutdown hshutdown).1
    exact ⟨hafter.kind, hafter.inDds, hafter.listening, hafter.waiting⟩
  | shuts =>
    obtain ⟨todo, pc, hcloser, hmem⟩ := h.listed
    obtain ⟨f, hf, hwaits⟩ := h.endpoint
    simp only [FastDdsTransport.step] at hstep
    split at hstep
    · next first rest now hfirst =>
      rw [hcloser] at hfirst
      cases hfirst
      split at hstep
      · next hnone =>
        cases hstep
        refine ⟨⟨rest, .idle, rfl, (List.mem_cons.mp hmem).resolve_left ?_⟩, h.endpoint⟩
        rintro rfl
        rw [hf] at hnone
        cases hnone
      · next e he =>
        split at hstep
        · next hskipped =>
          cases hstep
          refine ⟨⟨rest, .idle, rfl, (List.mem_cons.mp hmem).resolve_left ?_⟩, h.endpoint⟩
          rintro rfl
          rw [he] at hf
          cases hf
          have hgone := hinv.released_gone he hskipped.2
          rw [hwaits.inDds] at hgone
          cases hgone
        · obtain ⟨⟨e', pc'⟩, hshutdown, rfl⟩ := Option.map_eq_some_iff.mp hstep
          refine ⟨?_, h.set he fun hheld => (hheld.shutdown hshutdown).1⟩
          by_cases hdone : pc' = .finished
          · refine ⟨rest, .idle, if_pos hdone, (List.mem_cons.mp hmem).resolve_left ?_⟩
            -- a call that took no pointers out would end, but then the reader is gone
            rintro rfl
            rw [he] at hf
            cases hf
            have hagrees := hinv.agrees _ _ he
            rw [closerPc_first hcloser, if_pos rfl] at hagrees
            have hgone := hagrees.gone (.inr (.inr (.inl ((hwaits.shutdown hshutdown).2 hdone))))
            rw [hwaits.inDds] at hgone
            cases hgone
          · exact ⟨first :: rest, pc', if_neg hdone, hmem⟩
    · cases hstep
  | closed =>
    obtain ⟨todo, pc, hcloser, hmem⟩ := h.listed
    simp only [FastDdsTransport.step] at hstep
    split at hstep
    · next hlast =>
      rw [hcloser] at hlast
      cases hlast
      cases hmem
    · cases hstep

/-- A data callback that calls `Open` or `Close` while `Close` has its reader to shut down waits for `Close`,
which waits for the callback: whatever runs on, `Close` does not end. -/
theorem close_waits_forever (h : t.Reached) (hwaits : WaitsFor t state) {moves : List Move}
    (hrun : run FastDdsTransport.step t moves = some t') : t'.closer ≠ .idle := by
  induction moves generalizing t with
  | nil =>
    cases hrun
    exact hwaits.busy
  | cons move moves ih =>
    obtain ⟨u, hu, hrest⟩ := run_cons hrun
    exact ih (.step move h trivial hu) (hwaits.step (inv h) hu) hrest

theorem close_waits_forever_callbackOpens :
    ∃ t : FastDdsTransport, t.Reached ∧ WaitsFor t 0
      ∧ ∀ moves t', run FastDdsTransport.step t moves = some t' → t'.closer ≠ .idle := by
  obtain ⟨t, hreached, ht⟩ := @reach_of_run _ _ FastDdsTransport.step FastDdsTransport.Fresh _
    (listenedTo ++ [.waits 0 .lifecycle])
    (fun t : FastDdsTransport => decide (t.closer = .shutting [0, 1] (.detached true)
      ∧ ((t.states[0]?).map fun e : EndpointState =>
      (e.kind, e.inDds, e.listening, e.waiting)) = some (.reader, true, true, some .lifecycle))) ⟨{}, rfl⟩ (by decide +kernel)
  obtain ⟨hcloser, hstate⟩ := of_decide_eq_true ht
  obtain ⟨e, he, hfields⟩ := Option.map_eq_some_iff.mp hstate
  simp only [Prod.mk.injEq] at hfields
  obtain ⟨hkind, hin, hlistening, hwaiting⟩ := hfields
  have hwaits : WaitsFor t 0 :=
    ⟨⟨[0, 1], .detached true, hcloser, List.mem_cons_self⟩, e, he, hkind, hin, hlistening, hwaiting⟩
  exact ⟨t, hreached, hwaits, fun moves t' => close_waits_forever hreached hwaits⟩

end stuck

end PuppetMaster.FastDds
