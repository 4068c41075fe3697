/-
  PuppetMaster.Shm.NotifyReads — no Read sleeps over a message, and each Fanout does its work.

  `Reads`: a Read that found nothing is safe as long as its generation stands (`Safe`): if the
  dispatcher has seen a sequence that is new to the reader, its Fanout has the reader still
  before it, or somebody closes the reader. It is so when Pending finds nothing, because
  neither the dispatcher nor an announcement is ahead of `write_seq` (`ReadOk.settle`); a new
  sequence makes every open reader due (`Registry.due`); and Fanout passes a due reader over
  only when it is closed or has been told (`Reads.skip`). A generation that moved on while a
  Read sleeps is one whose `notify_all` comes next.

  `Ledger`: the visits of a Fanout and the readers it has left are the readers it copied.

  `readers_are_notified` puts the invariants together, for every run.
-/

import PuppetMaster.Shm.NotifyProofs
import PuppetMaster.Shm.SeqlockProofs

namespace PuppetMaster.Shm.Notify

open PuppetMaster.Lib PuppetMaster.Shm

variable {s t : St}

/-! ## Reads -/

/-- Fanout is going to visit reader `r`. -/
def Due (s : St) (r : Nat) : Prop := s.dispatcher = .copying ∧ r ∈ s.readers ∨ r ∈ s.dispatcher.remaining

/-- Somebody will wake the Reads of `r` if a sequence the dispatcher has seen is new to it. -/
def Safe (s : St) (r : Nat) : Prop :=
  (s.endpoints r).cursor ≤ s.lastSeen → Due s r ∨ (s.endpoints r).closed = true ∨ WakeOwed s r

/-- What holds of a thread at `pc`. -/
structure ReadOk (s : St) (pc : ReadPc) : Prop where
  served : ∀ r, pc.reader = some r → (s.endpoints r).life.served = true
  observed : ∀ r o, pc.observes = some (r, o) → o ≤ (s.endpoints r).generation
  /-- Pending found nothing, and there was no announcement since. -/
  watched : ∀ r o, pc.watches = some (r, o) → (s.endpoints r).generation = o →
    (s.endpoints r).notifiedUpTo < (s.endpoints r).cursor ∧ Safe s r
  bumped : ∀ r o, pc.sleeps = some (r, o) → (s.endpoints r).generation ≠ o → s.dispatcher.notifies = some r
  closed : ∀ r o, pc.sleeps = some (r, o) → (s.endpoints r).closed = true → WakeOwed s r

def Reads (s : St) : Prop := ∀ u, ReadOk s (s.reads u)

theorem ReadOk.idle (s : St) : ReadOk s .idle := by
  refine ⟨?_, ?_, ?_, ?_, ?_⟩ <;> intros <;> contradiction

theorem ReadPc.observes_of_watches {pc : ReadPc} {o : Nat × Nat} (h : pc.watches = some o) : pc.observes = some o := by
  cases pc <;> first | exact h | cases h

theorem ReadPc.reader_of_observes {pc : ReadPc} {o : Nat × Nat} (h : pc.observes = some o) : pc.reader = some o.1 := by
  cases pc <;> cases h <;> rfl

theorem ReadPc.watches_of_sleeps {pc : ReadPc} {o : Nat × Nat} (h : pc.sleeps = some o) : pc.watches = some o := by
  cases pc <;> first | exact h | cases h

/-- What a move has to keep for the Reads of reader `r`. -/
structure Keeps (s t : St) (r : Nat) : Prop where
  served : (t.endpoints r).life.served = true
  generation : (s.endpoints r).generation ≤ (t.endpoints r).generation
  bump : (t.endpoints r).generation ≠ (s.endpoints r).generation → t.dispatcher.notifies = some r
  quiet : (t.endpoints r).generation = (s.endpoints r).generation →
    (s.endpoints r).notifiedUpTo < (s.endpoints r).cursor → Safe s r →
    (t.endpoints r).notifiedUpTo < (t.endpoints r).cursor ∧ Safe t r

/-- What it has to keep for those that sleep. -/
structure Wakes (s t : St) (r : Nat) : Prop where
  notifies : s.dispatcher.notifies = some r → t.dispatcher.notifies = some r
  closed : (t.endpoints r).closed = true → (s.endpoints r).closed = true ∨ WakeOwed t r
  owed : WakeOwed s r → WakeOwed t r

theorem ReadOk.transfer {pc pc' : ReadPc} (h : ReadOk s pc) (hw : pc'.Weaker pc)
    (hk : ∀ r, (s.endpoints r).life.served = true → Keeps s t r)
    (hs : ∀ r o, pc'.sleeps = some (r, o) → (s.endpoints r).life.served = true → Wakes s t r) : ReadOk t pc' where
  served r hr := (hk r (h.served r (hw.reader r hr))).served
  observed r o ho := by
    have ho := hw.observes _ ho
    have hserved := h.served r (ReadPc.reader_of_observes ho)
    exact Nat.le_trans (h.observed r o ho) (hk r hserved).generation
  watched r o ho hgen := by
    have ho := hw.watches _ ho
    have hobs := ReadPc.observes_of_watches ho
    have hkeep := hk r (h.served r (ReadPc.reader_of_observes hobs))
    have hle := h.observed r o hobs
    have hmono := hkeep.generation
    have hsame : (s.endpoints r).generation = o := by omega
    obtain ⟨hlt, hsafe⟩ := h.watched r o ho hsame
    exact hkeep.quiet (by rw [hgen, hsame]) hlt hsafe
  bumped r o ho hgen := by
    have hso := hw.sleeps _ ho
    have hserved := h.served r (ReadPc.reader_of_observes (ReadPc.observes_of_watches (ReadPc.watches_of_sleeps hso)))
    by_cases e : (t.endpoints r).generation = (s.endpoints r).generation
    · exact (hs r o ho hserved).notifies (h.bumped r o hso (e ▸ hgen))
    · exact (hk r hserved).bump e
  closed r o ho hc := by
    have hso := hw.sleeps _ ho
    have hserved := h.served r (ReadPc.reader_of_observes (ReadPc.observes_of_watches (ReadPc.watches_of_sleeps hso)))
    have hwakes := hs r o ho hserved
    rcases hwakes.closed hc with hc | howed
    · exact hwakes.owed (h.closed r o hso hc)
    · exact howed

/-- A move that neither announces nor closes. -/
theorem Keeps.same {r : Nat} (hserved : (s.endpoints r).life.served = true)
    (hlife : (t.endpoints r).life = (s.endpoints r).life)
    (hgen : (t.endpoints r).generation = (s.endpoints r).generation)
    (hnotified : (t.endpoints r).notifiedUpTo = (s.endpoints r).notifiedUpTo)
    (hclosed : (t.endpoints r).closed = (s.endpoints r).closed)
    (hcursor : (s.endpoints r).cursor ≤ (t.endpoints r).cursor) (hcloser : t.closer = s.closer)
    (hseen : t.lastSeen = s.lastSeen) (hdue : Due s r → Due t r) : Keeps s t r where
  served := hlife ▸ hserved
  generation := Nat.le_of_eq hgen.symm
  bump h := absurd hgen h
  quiet _ hlt hsafe := by
    refine ⟨by omega, fun hle => ?_⟩
    rw [hseen] at hle
    rcases hsafe (by omega) with h | h | h
    · exact .inl (hdue h)
    · exact .inr (.inl (hclosed ▸ h))
    · refine .inr (.inr ?_)
      rw [WakeOwed, hlife, hcloser]
      exact h

theorem Wakes.same {r : Nat} (hlife : (t.endpoints r).life = (s.endpoints r).life)
    (hclosed : (t.endpoints r).closed = (s.endpoints r).closed) (hcloser : t.closer = s.closer)
    (hnotifies : s.dispatcher.notifies = some r → t.dispatcher.notifies = some r) : Wakes s t r where
  notifies := hnotifies
  closed h := .inl (hclosed ▸ h)
  owed h := by
    rw [WakeOwed, hlife, hcloser]
    exact h

/-- A move of somebody who leaves the readers alone. -/
theorem Reads.same (h : Reads s) (hreads : t.reads = s.reads) (hendpoints : t.endpoints = s.endpoints)
    (hcloser : t.closer = s.closer) (hseen : t.lastSeen = s.lastSeen) (hdue : ∀ r, Due s r → Due t r)
    (hnotifies : ∀ r, s.dispatcher.notifies = some r → t.dispatcher.notifies = some r) : Reads t := by
  intro u
  rw [hreads]
  refine (h u).transfer (.refl _) (fun r hr => ?_) fun r o _ _ => ?_
  · exact .same hr (hendpoints ▸ rfl) (hendpoints ▸ rfl) (hendpoints ▸ rfl) (hendpoints ▸ rfl)
      (hendpoints ▸ Nat.le_refl _) hcloser hseen (hdue r)
  · exact .same (hendpoints ▸ rfl) (hendpoints ▸ rfl) hcloser (hnotifies r)

/-- A reader that somebody closes needs no Fanout. -/
theorem Keeps.leaves {r : Nat} (hserved : (t.endpoints r).life.served = true)
    (hgen : (t.endpoints r).generation = (s.endpoints r).generation)
    (hnotified : (t.endpoints r).notifiedUpTo = (s.endpoints r).notifiedUpTo)
    (hcursor : (t.endpoints r).cursor = (s.endpoints r).cursor)
    (hleaves : (t.endpoints r).closed = true ∨ WakeOwed t r) : Keeps s t r where
  served := hserved
  generation := Nat.le_of_eq hgen.symm
  bump h := absurd hgen h
  quiet _ hlt _ := ⟨by omega, fun _ => .inr hleaves⟩

theorem Wakes.owes {r : Nat} (hdispatcher : t.dispatcher = s.dispatcher) (howed : WakeOwed t r) : Wakes s t r :=
  ⟨fun h => hdispatcher ▸ h, fun _ => .inr howed, fun _ => howed⟩

/-- A move that changes one endpoint and what the topic knows of it. -/
theorem Reads.move (h : Reads s) {r : Nat} {e : Endpoint} (hendpoints : t.endpoints = Function.update s.endpoints r e)
    (hreads : ∀ u, (t.reads u).Weaker (s.reads u)) (hseen : t.lastSeen = s.lastSeen)
    (hdispatcher : t.dispatcher = s.dispatcher) (hreaders : ∀ q, q ≠ r → q ∈ s.readers → q ∈ t.readers)
    (hcloser : t.closer = s.closer) (hkeeps : (s.endpoints r).life.served = true → Keeps s t r)
    (hwakes : ∀ u o, (t.reads u).sleeps = some (r, o) → (s.endpoints r).life.served = true → Wakes s t r) :
    Reads t := by
  intro u
  refine (h u).transfer (hreads u) (fun q hq => ?_) fun q o hs hq => ?_
  · by_cases e' : q = r
    · subst e'; exact hkeeps hq
    · have hsame : t.endpoints q = s.endpoints q := by rw [hendpoints, Function.update_of_ne e']
      refine .same hq (by rw [hsame]) (by rw [hsame]) (by rw [hsame]) (by rw [hsame]) (Nat.le_of_eq (by rw [hsame]))
        hcloser hseen ?_
      intro h
      rcases h with ⟨hc, hin⟩ | hin
      · exact .inl ⟨hdispatcher ▸ hc, hreaders q e' hin⟩
      · exact .inr (hdispatcher ▸ hin)
  · by_cases e' : q = r
    · subst e'; exact hwakes u o hs hq
    · have hsame : t.endpoints q = s.endpoints q := by rw [hendpoints, Function.update_of_ne e']
      exact .same (by rw [hsame]) (by rw [hsame]) hcloser fun hn => hdispatcher ▸ hn

/-- The same when the endpoint stays where it is. -/
theorem Reads.touch (h : Reads s) {r : Nat} {e : Endpoint} (hendpoints : t.endpoints = Function.update s.endpoints r e)
    (hreads : ∀ u, (t.reads u).Weaker (s.reads u)) (hseen : t.lastSeen = s.lastSeen)
    (hdispatcher : t.dispatcher = s.dispatcher) (hreaders : t.readers = s.readers) (hcloser : t.closer = s.closer)
    (hlife : e.life = (s.endpoints r).life) (hgen : e.generation = (s.endpoints r).generation)
    (hnotified : e.notifiedUpTo = (s.endpoints r).notifiedUpTo) (hclosed : e.closed = (s.endpoints r).closed)
    (hcursor : (s.endpoints r).cursor ≤ e.cursor) : Reads t := by
  have hr : t.endpoints r = e := by rw [hendpoints, Function.update_self]
  refine h.move hendpoints hreads hseen hdispatcher (fun q _ hq => hreaders ▸ hq) hcloser (fun hserved => ?_)
    fun u o _ _ => ?_
  · refine .same hserved (hr ▸ hlife) (hr ▸ hgen) (hr ▸ hnotified) (hr ▸ hclosed) (hr ▸ hcursor) hcloser hseen ?_
    rw [Due, Due, hdispatcher, hreaders]
    exact id
  · exact .same (hr ▸ hlife) (hr ▸ hclosed) hcloser fun hn => hdispatcher ▸ hn

/-- Thread `u` moves, and nothing else does. -/
theorem Reads.setRead (h : Reads s) {u : Nat} {pc : ReadPc} (hpc : ReadOk s pc) : Reads (setRead s u pc) := by
  have hall : ∀ pc, ReadOk s pc → ReadOk (Notify.setRead s u pc) pc := fun pc hpc =>
    hpc.transfer (.refl _) (fun r hr => .same hr rfl rfl rfl rfl (Nat.le_refl _) rfl rfl id) fun r o _ _ =>
      .same rfl rfl rfl id
  intro v
  by_cases e : v = u
  · subst e
    simpa [Notify.setRead] using hall pc hpc
  · have hv : (Notify.setRead s u pc).reads v = s.reads v := by simp [Notify.setRead, e]
    rw [hv]
    exact (h v).transfer (.refl _) (fun r hr => .same hr rfl rfl rfl rfl (Nat.le_refl _) rfl rfl id) fun r o _ _ =>
      .same rfl rfl rfl id

theorem ReadOk.asleep {r observed : Nat} {o : ReadOptions} (h : ReadOk s (.waiting r o observed))
    (hready : ready s r observed = false) : ReadOk s (.asleep r o observed) := by
  simp only [ready, Bool.or_eq_false_iff, decide_eq_false_iff_not, ne_eq, Decidable.not_not] at hready
  obtain ⟨⟨hopen, -⟩, hgen⟩ := hready
  refine ⟨h.served, h.observed, h.watched, fun q o' hs hne => ?_, fun q o' hs hc => ?_⟩
  · cases hs
    exact absurd hgen hne
  · cases hs
    rw [hopen] at hc
    cases hc

/-- Pending found nothing: what the dispatcher has seen is not new to the reader. -/
theorem ReadOk.settle {r observed : Nat} {o : ReadOptions} (h : ReadOk s (.checking r o observed)) (hcaught : Caught s)
    (hregistry : Registry s) (hnone : s.writeSeq < (s.endpoints r).cursor) : ReadOk s (.waiting r o observed) := by
  refine ⟨h.served, h.observed, fun q o' hw _ => ?_, fun q o' hs => (by cases hs), fun q o' hs => by cases hs⟩
  cases hw
  have hnotified := (hregistry.told r).notified
  have hseen := hcaught.seen
  exact ⟨by omega, fun hle => by omega⟩

theorem remaining_of_outside {pc : DispatcherPc} (h : pc.fanout = none) : pc.remaining = [] ∧ pc.notifies = none := by
  cases pc <;> first | exact ⟨rfl, rfl⟩ | cases h

/-- The dispatcher moves outside Fanout. -/
theorem Reads.outside (h : Reads s) (hf : s.dispatcher.fanout = none) (hc : s.dispatcher ≠ .copying)
    (hreads : t.reads = s.reads) (hendpoints : t.endpoints = s.endpoints) (hcloser : t.closer = s.closer)
    (hseen : t.lastSeen = s.lastSeen) : Reads t := by
  obtain ⟨hrest, hnone⟩ := remaining_of_outside hf
  refine h.same hreads hendpoints hcloser hseen (fun r hdue => ?_) fun r hn => ?_
  · rcases hdue with ⟨hd, -⟩ | hin
    · exact absurd hd hc
    · rw [hrest] at hin
      cases hin
  · rw [hnone] at hn
    cases hn

theorem Reads.futexWake (h : Reads s) {w : Nat → PublisherPc} : Reads { futexWake s with publishers := w } := by
  by_cases e : s.dispatcher = .asleep
  · exact h.outside (by rw [e]; rfl) (by rw [e]; simp) rfl rfl rfl rfl
  · have hd : (Notify.futexWake s).dispatcher = s.dispatcher := by simp only [Notify.futexWake, if_neg e]
    refine h.same rfl rfl rfl rfl (fun r hdue => ?_) fun r hn => ?_
    · rcases hdue with ⟨hc, hin⟩ | hin
      · exact .inl ⟨hd.trans hc, hin⟩
      · rw [← hd] at hin
        exact .inr hin
    · rw [← hd] at hn
      exact hn

/-- Once Fanout starts, every open reader is due. -/
theorem Registry.due (h : Registry s) (hcopy : s.dispatcher = .copying) {r : Nat}
    (hserved : (s.endpoints r).life.served = true) :
    Due s r ∨ (s.endpoints r).closed = true ∨ WakeOwed s r := by
  have hp := h.placed r
  cases hlife : (s.endpoints r).life with
  | opened =>
    cases hshut : s.closed with
    | false => exact .inl (.inl ⟨hcopy, hp.listed hlife hshut⟩)
    | true => exact .inr ((hp.taken hlife hshut).imp id fun hin => .inr (.inr hin))
  | removed => exact .inr (.inr (.inl hlife))
  | closing => exact .inr (.inr (.inr (.inl hlife)))
  | gone => exact .inr (.inl (hp.closed (.inr hlife)))
  | absent => rw [hlife] at hserved; cases hserved
  | created => rw [hlife] at hserved; cases hserved
  | refused => rw [hlife] at hserved; cases hserved

theorem setRead_weaker {u : Nat} {pc : ReadPc} (h : pc.Weaker (s.reads u)) (v : Nat) :
    ((setRead s u pc).reads v).Weaker (s.reads v) := by
  by_cases e : v = u
  · subst e
    simpa [setRead] using h
  · simpa [setRead, e] using ReadPc.Weaker.refl (s.reads v)

/-! Endpoints come and go. -/

theorem Reads.remove (h : Reads s) {r : Nat} :
    Reads { setEndpoint s r { s.endpoints r with life := .removed } with readers := s.readers.filter (· ≠ r) } := by
  have howed : WakeOwed { setEndpoint s r { s.endpoints r with life := .removed } with
      readers := s.readers.filter (· ≠ r) } r := .inl (by simp [setEndpoint])
  refine h.move rfl (fun _ => .refl _) rfl rfl (fun q hne hq => ?_) rfl (fun _ => ?_) fun u o _ _ => .owes rfl howed
  · exact List.mem_filter.mpr ⟨hq, by simpa using hne⟩
  · exact .leaves (by simp [setEndpoint, Life.served]) (by simp [setEndpoint]) (by simp [setEndpoint])
      (by simp [setEndpoint]) (.inr howed)

theorem Reads.closeState (h : Reads s) {r : Nat} :
    Reads (setEndpoint s r { (s.endpoints r).close with life := .closing }) := by
  have howed : WakeOwed (setEndpoint s r { (s.endpoints r).close with life := .closing }) r :=
    .inr (.inl (by simp [setEndpoint]))
  refine h.move rfl (fun _ => .refl _) rfl rfl (fun q _ hq => hq) rfl (fun _ => ?_) fun u o _ _ => .owes rfl howed
  exact .leaves (by simp [setEndpoint, Life.served]) (by simp [setEndpoint, Endpoint.close])
    (by simp [setEndpoint, Endpoint.close]) (by simp [setEndpoint, Endpoint.close]) (.inr howed)

theorem Reads.closeNotify (h : Reads s) (hregistry : Registry s) {r : Nat} (hr : (s.endpoints r).life = .closing) :
    Reads (notifyReads (setEndpoint s r { s.endpoints r with life := .gone }) r) := by
  refine h.move rfl (fun u => ReadPc.wake_weaker r _) rfl rfl (fun q _ hq => hq) rfl (fun _ => ?_) fun u o hs _ => ?_
  · refine .leaves (by simp [notifyReads, setEndpoint, Life.served]) (by simp [notifyReads, setEndpoint])
      (by simp [notifyReads, setEndpoint]) (by simp [notifyReads, setEndpoint]) (.inl ?_)
    simpa [notifyReads, setEndpoint] using (hregistry.placed r).closed (.inl hr)
  · exact absurd rfl (ReadPc.wake_sleeps hs)

theorem Reads.close (h : Reads s) (hregistry : Registry s) (hshut : s.closed = false) :
    Reads { s with closed := true, readers := [], closer := .closing s.readers } := by
  have howed : ∀ q, WakeOwed s q → WakeOwed { s with closed := true, readers := [], closer := .closing s.readers } q := by
    intro q hq
    refine hq.imp id (Or.imp id fun hin => ?_)
    rw [hregistry.idle hshut] at hin
    cases hin
  intro u
  refine (h u).transfer (.refl _) (fun r hr => ?_) fun r o _ _ => ⟨id, .inl, howed r⟩
  refine ⟨hr, Nat.le_refl _, fun hne => absurd rfl hne, fun _ hlt hsafe => ⟨hlt, fun hle => ?_⟩⟩
  rcases hsafe hle with (⟨-, hin⟩ | hin) | hc | ho
  · exact .inr (.inr (.inr (.inr hin)))
  · exact .inl (.inr hin)
  · exact .inr (.inl hc)
  · exact .inr (.inr (howed r ho))

theorem Reads.closerState (h : Reads s) {r : Nat} {rest : List Nat} (hc : s.closer = .closing (r :: rest)) :
    Reads { setEndpoint s r (s.endpoints r).close with closer := .notifying r rest } := by
  have hmid : Reads (setEndpoint s r (s.endpoints r).close) := by
    have howed : WakeOwed (setEndpoint s r (s.endpoints r).close) r :=
      .inr (.inr (by simp only [setEndpoint]; rw [hc]; exact List.mem_cons_self))
    refine h.move rfl (fun _ => .refl _) rfl rfl (fun q _ hq => hq) rfl (fun hs => ?_) fun u o _ _ => .owes rfl howed
    exact .leaves (by simpa [setEndpoint, Endpoint.close] using hs) (by simp [setEndpoint, Endpoint.close])
      (by simp [setEndpoint, Endpoint.close]) (by simp [setEndpoint, Endpoint.close]) (.inr howed)
  -- The readers Close has still to notify are the same.
  have howed : ∀ q, WakeOwed (setEndpoint s r (s.endpoints r).close) q →
      WakeOwed { setEndpoint s r (s.endpoints r).close with closer := .notifying r rest } q := by
    intro q hq
    refine hq.imp id (Or.imp id fun hin => ?_)
    simp only [setEndpoint] at hin
    rw [hc] at hin
    exact hin
  intro u
  refine (hmid u).transfer (.refl _) (fun q hq => ?_) fun q o _ _ => ⟨id, .inl, howed q⟩
  refine ⟨hq, Nat.le_refl _, fun hne => absurd rfl hne, fun _ hlt hsafe => ⟨hlt, fun hle => ?_⟩⟩
  exact (hsafe hle).imp id (Or.imp id (howed q))

theorem Reads.closerNotify (h : Reads s) (hregistry : Registry s) {r : Nat} {rest : List Nat}
    (hc : s.closer = .notifying r rest) : Reads { notifyReads s r with closer := .closing rest } := by
  have howed : ∀ q, q ≠ r → WakeOwed s q → WakeOwed { notifyReads s r with closer := .closing rest } q := by
    intro q hne hq
    refine hq.imp id (Or.imp id fun hin => ?_)
    rw [hc] at hin
    exact (List.mem_cons.mp hin).resolve_left hne
  intro u
  refine (h u).transfer (ReadPc.wake_weaker r _) (fun q hq => ?_) fun q o hs _ => ⟨id, .inl, howed q (ReadPc.wake_sleeps hs)⟩
  refine ⟨hq, Nat.le_refl _, fun hne => absurd rfl hne, fun _ hlt hsafe => ⟨hlt, fun hle => ?_⟩⟩
  by_cases e : q = r
  · subst e
    exact .inr (.inl (hregistry.closer q rest hc))
  · exact (hsafe hle).imp id (Or.imp id (howed q e))

/-! The dispatcher. -/

theorem Reads.seeNew (h : Reads s) (hregistry : Registry s) (hpc : s.dispatcher = .sequencing) :
    Reads { s with lastSeen := s.writeSeq, dispatcher := .copying } := by
  have hnew : Registry { s with lastSeen := s.writeSeq, dispatcher := .copying } :=
    hregistry.same (Nat.le_refl _) rfl rfl rfl rfl (fun h' => by cases h') fun f hf => by cases hf
  intro u
  refine (h u).transfer (.refl _) (fun r hr => ?_) fun r o _ _ => .same rfl rfl rfl fun hn => ?_
  · exact ⟨hr, Nat.le_refl _, fun hne => absurd rfl hne, fun _ hlt _ => ⟨hlt, fun _ => hnew.due rfl hr⟩⟩
  · rw [hpc] at hn
    cases hn

theorem Reads.skip (h : Reads s) (hregistry : Registry s) {f f' : Fanout} {r : Nat} {rest : List Nat}
    (hpc : s.dispatcher = .visiting f (r :: rest))
    (hskip : (s.endpoints r).closed = true ∨ f.newest ≤ (s.endpoints r).notifiedUpTo) :
    Reads { s with dispatcher := .visiting f' rest } := by
  have hnewest := hregistry.newest f (by rw [hpc]; rfl)
  intro u
  refine (h u).transfer (.refl _) (fun q hq => ?_) fun q o _ _ => .same rfl rfl rfl fun hn => ?_
  · refine ⟨hq, Nat.le_refl _, fun hne => absurd rfl hne, fun _ hlt hsafe => ⟨hlt, fun hle => ?_⟩⟩
    rcases hsafe hle with (⟨hd, -⟩ | hin) | hother
    · rw [hpc] at hd
      cases hd
    · rw [hpc] at hin
      rcases List.mem_cons.mp hin with rfl | hin
      · -- A reader that was passed over is closed, or has nothing new.
        rcases hskip with hc | hold
        · exact .inr (.inl hc)
        · simp only [] at hle
          omega
      · exact .inl (.inr hin)
    · exact .inr hother
  · rw [hpc] at hn
    cases hn

theorem Reads.announce (h : Reads s) {f : Fanout} {v : Visit} {r : Nat} {rest : List Nat}
    (hpc : s.dispatcher = .visiting f (r :: rest)) (hv : v.reader = r) :
    Reads { setEndpoint s r ((s.endpoints r).announce f.newest) with dispatcher := .notifying f v rest } := by
  intro u
  refine (h u).transfer (.refl _) (fun q hq => ?_) fun q o _ _ => ?_
  · by_cases e : q = r
    · subst e
      refine ⟨by simpa [setEndpoint, Endpoint.announce] using hq, by simp [setEndpoint, Endpoint.announce], fun _ => ?_,
        fun hsame => ?_⟩
      · exact congrArg some hv
      · simp [setEndpoint, Endpoint.announce] at hsame
    · refine .same hq (by simp [setEndpoint, e]) (by simp [setEndpoint, e]) (by simp [setEndpoint, e])
        (by simp [setEndpoint, e]) (by simp [setEndpoint, e]) rfl rfl ?_
      intro h
      rcases h with ⟨hd, -⟩ | hin
      · rw [hpc] at hd
        cases hd
      · rw [hpc] at hin
        exact .inr ((List.mem_cons.mp hin).resolve_left e)
  · refine .same ?_ ?_ rfl fun hn => ?_
    · by_cases e : q = r
      · subst e; simp [setEndpoint, Endpoint.announce]
      · simp [setEndpoint, e]
    · by_cases e : q = r
      · subst e; simp [setEndpoint, Endpoint.announce]
      · simp [setEndpoint, e]
    · rw [hpc] at hn
      cases hn

theorem Reads.notifyAll (h : Reads s) {f : Fanout} {v : Visit} {left : Nat} {rest : List Nat}
    (hpc : s.dispatcher = .notifying f v rest) :
    Reads { notifyReads s v.reader with dispatcher := .calling f v left rest } := by
  intro u
  refine (h u).transfer (ReadPc.wake_weaker v.reader _) (fun q hq => ?_) fun q o hs _ => ?_
  · refine .same hq rfl rfl rfl rfl (Nat.le_refl _) rfl rfl ?_
    intro h
    rcases h with ⟨hd, -⟩ | hin
    · rw [hpc] at hd
      cases hd
    · rw [hpc] at hin
      exact .inr hin
  · refine .same rfl rfl rfl fun hn => ?_
    rw [hpc] at hn
    exact absurd (Option.some.inj hn).symm (ReadPc.wake_sleeps hs)

/-- Within a Fanout, from one call to the next. -/
theorem Reads.calling (h : Reads s) {f : Fanout} {v : Visit} {left : Nat} {rest : List Nat}
    (hpc : s.dispatcher = .calling f v left rest) {pc : DispatcherPc} (hrest : pc.remaining = rest) :
    Reads { s with dispatcher := pc } := by
  refine h.same rfl rfl rfl rfl (fun r hdue => ?_) fun r hn => ?_
  · rcases hdue with ⟨hd, -⟩ | hin
    · rw [hpc] at hd
      cases hd
    · rw [hpc] at hin
      exact .inr (hrest ▸ hin)
  · rw [hpc] at hn
    cases hn

theorem Reads.step (h : Reads s) (hcaught : Caught s) (hregistry : Registry s) (hst : Step s t) : Reads t := by
  cases hst with
  | stay => exact h
  | commit | notify | notifyOther => exact h.same rfl rfl rfl rfl (fun _ => id) fun _ => id
  | wake w => exact h.futexWake
  | wakeOther => exact h.futexWake
  | create r _ hr | refuse r hr =>
    refine h.move rfl (fun _ => .refl _) rfl rfl (fun q _ hq => hq) rfl (fun hs => ?_) fun u o _ hs => ?_
    · rw [hr] at hs; cases hs
    · rw [hr] at hs; cases hs
  | addFirst r hr hshut hd =>
    -- Nobody reads before the first reader is there.
    intro u
    refine (h u).transfer (.refl _) (fun q hq => ?_) fun q o _ hq => ?_
    · exact absurd hd ((hregistry.placed q).started hq)
    · exact absurd hd ((hregistry.placed q).started hq)
  | add r hr hshut hd =>
    refine h.move rfl (fun _ => .refl _) rfl rfl (fun q _ hq => List.mem_append_left _ hq) rfl (fun hs => ?_)
      fun u o _ hs => ?_
    · rw [hr] at hs; cases hs
    · rw [hr] at hs; cases hs
  | remove r hr => exact h.remove
  | closeState r hr => exact h.closeState
  | closeNotify r hr => exact h.closeNotify hregistry hr
  | setCallback r callback =>
    exact h.touch (r := r) rfl (fun _ => .refl _) rfl rfl rfl rfl rfl rfl rfl rfl (Nat.le_refl _)
  | close hshut => exact h.close hregistry hshut
  | closerState r rest hc => exact h.closerState hc
  | closerNotify r rest hc => exact h.closerNotify hregistry hc
  | read u r o hr =>
    refine h.setRead ⟨fun q hq => ?_, ?_, ?_, ?_, ?_⟩
    · cases hq
      rw [hr]
      rfl
    all_goals intros; contradiction
  | quiet u r cursor mutex pc hw hcursor =>
    exact h.touch (r := r) rfl (setRead_weaker (s := setEndpoint s r _) hw) rfl rfl rfl rfl rfl rfl rfl rfl hcursor
  | observe u r o passes hr =>
    refine h.setRead ⟨fun q hq => ?_, fun q o' hq => ?_, ?_, ?_, ?_⟩
    · cases hq
      exact (h u).served r hr
    · cases hq
      exact Nat.le_refl _
    all_goals intros; contradiction
  | settle u r o observed hpc hnone =>
    have hu := h u
    rw [hpc] at hu
    exact h.setRead (hu.settle hcaught hregistry hnone)
  | block u r o observed hpc hready =>
    have hu := h u
    rw [hpc] at hu
    exact (h.setRead (u := u) (hu.asleep hready)).touch (r := r) rfl (fun _ => .refl _) rfl rfl rfl rfl rfl rfl rfl rfl
      (Nat.le_refl _)
  | turn pc hpc hf hc => exact h.outside hf hc rfl rfl rfl rfl
  | load hpc | seeSame hpc | recheck hpc | wait hpc | sleep hpc =>
    exact h.outside (by rw [hpc]; rfl) (by rw [hpc]; simp) rfl rfl rfl rfl
  | seeNew hpc => exact h.seeNew hregistry hpc
  | copy hpc =>
    refine h.same rfl rfl rfl rfl (fun r hdue => ?_) fun r hn => ?_
    · rcases hdue with ⟨-, hin⟩ | hin
      · exact .inr hin
      · rw [hpc] at hin
        cases hin
    · rw [hpc] at hn
      cases hn
  | finish f hpc =>
    refine h.same rfl rfl rfl rfl (fun r hdue => ?_) fun r hn => ?_
    · rcases hdue with ⟨hd, -⟩ | hin
      · rw [hpc] at hd
        cases hd
      · rw [hpc] at hin
        cases hin
    · rw [hpc] at hn
      cases hn
  | skip f r rest hpc hskip => exact h.skip hregistry hpc hskip
  | announce f r rest hpc => exact h.announce hpc rfl
  | notifyAll f v rest hpc => exact h.notifyAll hpc
  | call f v left rest hpc | next f v left rest hpc => exact h.calling hpc rfl

/-! ## Fanouts -/

/-- How far a Fanout is: the visits it made, and the readers it has left. -/
structure Fanout.Under (f : Fanout) (rest : List Nat) : Prop where
  nodup : f.readers.Nodup
  visited : f.visits.map (·.reader) ++ rest = f.readers
  called : ∀ v ∈ f.visits, v.calls = v.due f.newest

def DispatcherPc.Progress : DispatcherPc → Prop
  | .visiting f rest => f.Under rest
  | .notifying f v rest => f.Under (v.reader :: rest) ∧ v.calls = 0
  | .calling f v left rest => f.Under (v.reader :: rest) ∧
      v.due f.newest = v.calls + if v.callback = none then 0 else left
  | _ => True

structure Ledger (s : St) : Prop where
  finished : ∀ f ∈ s.fanouts, f.Complete
  current : s.dispatcher.Progress

theorem Ledger.frame (h : Ledger s) (hfanouts : t.fanouts = s.fanouts) (hpc : t.dispatcher.Progress) : Ledger t :=
  ⟨hfanouts ▸ h.finished, hpc⟩

theorem Fanout.Under.add {f : Fanout} {v : Visit} {rest : List Nat} (h : f.Under (v.reader :: rest))
    (hv : v.calls = v.due f.newest) : (f.add v).Under rest where
  nodup := h.nodup
  visited := by
    have := h.visited
    simpa [Fanout.add] using this
  called w hw := by
    rcases List.mem_append.mp hw with hw | hw
    · exact h.called w hw
    · rw [List.mem_singleton.mp hw]
      exact hv

theorem Fanout.Under.complete {f : Fanout} (h : f.Under []) : f.Complete :=
  ⟨h.nodup, by simpa using h.visited, h.called⟩

/-- A reader that is passed over has no callback to be called, or nothing new. -/
theorem Registry.skipped (h : Registry s) {f : Fanout} {r : Nat}
    (hskip : (s.endpoints r).closed = true ∨ f.newest ≤ (s.endpoints r).notifiedUpTo) :
    (visitOf s r).calls = (visitOf s r).due f.newest := by
  rw [Visit.due]
  rcases hskip with hc | hold
  · exact (if_pos ((h.told r).silent hc)).symm
  · have hnew : f.newest - (visitOf s r).notifiedUpTo = 0 := Nat.sub_eq_zero_of_le hold
    rw [hnew, Nat.zero_min, ite_self]
    rfl

theorem Ledger.futexWake (h : Ledger s) {w : Nat → PublisherPc} : Ledger { futexWake s with publishers := w } := by
  refine h.frame rfl ?_
  simp only [Notify.futexWake]
  split
  · trivial
  · exact h.current

theorem Ledger.step (h : Ledger s) (hregistry : Registry s) (hst : Step s t) : Ledger t := by
  have hcurrent := h.current
  cases hst with
  | wake w => exact h.futexWake
  | wakeOther => exact h.futexWake
  | addFirst r => exact h.frame rfl trivial
  | turn pc hpc =>
    refine h.frame rfl ?_
    rcases hpc with rfl | rfl | rfl <;> trivial
  | load | seeSame | seeNew | recheck | wait | sleep => exact h.frame rfl trivial
  | copy => exact h.frame rfl ⟨hregistry.nodup, rfl, fun v hv => by cases hv⟩
  | finish f hpc =>
    rw [hpc] at hcurrent
    refine ⟨fun f' hf => ?_, trivial⟩
    rcases List.mem_append.mp hf with hf | hf
    · exact h.finished f' hf
    · rw [List.mem_singleton.mp hf]
      exact Fanout.Under.complete hcurrent
  | skip f r rest hpc hskip =>
    rw [hpc] at hcurrent
    exact h.frame rfl (Fanout.Under.add (v := visitOf s r) hcurrent (hregistry.skipped hskip))
  | announce f r rest hpc =>
    rw [hpc] at hcurrent
    exact h.frame rfl ⟨hcurrent, rfl⟩
  | notifyAll f v rest hpc =>
    rw [hpc] at hcurrent
    obtain ⟨hunder, hcalls⟩ := hcurrent
    refine h.frame rfl ⟨hunder, ?_⟩
    rw [hcalls, Visit.due, Nat.zero_add]
  | call f v left rest hpc hcallback =>
    rw [hpc] at hcurrent
    obtain ⟨hunder, hdue⟩ := hcurrent
    refine h.frame rfl ⟨hunder, ?_⟩
    rw [if_neg hcallback] at hdue ⊢
    simp only [Visit.due] at hdue ⊢
    omega
  | next f v left rest hpc hend =>
    rw [hpc] at hcurrent
    obtain ⟨hunder, hdue⟩ := hcurrent
    refine h.frame rfl (hunder.add ?_)
    rcases hend with hnone | rfl
    · rw [if_pos hnone] at hdue
      omega
    · split at hdue <;> omega
  | _ => exact h.frame rfl hcurrent

/-! ## Runs -/

structure Inv (s : St) : Prop where
  caught : Caught s
  registry : Registry s
  reads : Reads s
  ledger : Ledger s

theorem Inv.init (h : init s) : Inv s := by
  obtain ⟨writeSeq, word, rfl⟩ := h
  exact ⟨.start writeSeq word, .start writeSeq word, fun _ => .idle _, fun f hf => (by cases hf), trivial⟩

theorem Inv.step (h : Inv s) (hst : Step s t) : Inv t where
  caught := h.caught.step hst
  registry := h.registry.step h.caught hst
  reads := h.reads.step h.caught h.registry hst
  ledger := h.ledger.step h.registry hst

variable {g : Geometry} {pollInterval : Int}

theorem inv (h : Reach (step g pollInterval) fewNotifications init s) : Inv s :=
  h.invariant (fun _ => .init) fun _ _ _ hi hok hst => hi.step (step_cases hok hst)

theorem notified_le_update {r : Nat} {e : Endpoint} (he : (s.endpoints r).notifiedUpTo ≤ e.notifiedUpTo) (q : Nat) :
    (s.endpoints q).notifiedUpTo ≤ (Function.update s.endpoints r e q).notifiedUpTo := by
  by_cases e' : q = r
  · subst e'
    rwa [Function.update_self]
  · exact Nat.le_of_eq (by rw [Function.update_of_ne e'])

theorem Inv.notified_mono (h : Inv s) (hst : Step s t) (q : Nat) :
    (s.endpoints q).notifiedUpTo ≤ (t.endpoints q).notifiedUpTo := by
  cases hst with
  | create r depth => exact notified_le_update (h.registry.told r).notified q
  | announce f r rest hpc hopen hlt => exact notified_le_update (Nat.le_of_lt hlt) q
  | refuse r | addFirst r | add r | remove r | closeState r | closeNotify r | setCallback r | closerState r | quiet u r
  | block u r => exact notified_le_update (by exact Nat.le_refl _) q
  | _ => exact Nat.le_refl _

/-- From any state on, what was announced stays announced. -/
theorem notified_run (h : Inv s) (hrun : Reach (step g pollInterval) fewNotifications (· = s) t) (r : Nat) :
    (s.endpoints r).notifiedUpTo ≤ (t.endpoints r).notifiedUpTo := by
  have hboth : Inv t ∧ (s.endpoints r).notifiedUpTo ≤ (t.endpoints r).notifiedUpTo := by
    refine hrun.invariant (I := fun t => Inv t ∧ (s.endpoints r).notifiedUpTo ≤ (t.endpoints r).notifiedUpTo) ?_ ?_
    · rintro _ rfl
      exact ⟨h, Nat.le_refl _⟩
    · rintro a b c ⟨hi, hle⟩ hok hst
      have hstep := step_cases hok hst
      exact ⟨hi.step hstep, Nat.le_trans hle (hi.notified_mono hstep r)⟩
  exact hboth.2

/-- The dispatcher sleeps over no sequence that its publisher has notified. -/
theorem Inv.seen_all (h : Inv s) (hasleep : s.dispatcher = .asleep) (hidle : PublishersIdle s) :
    s.writeSeq = s.lastSeen := by
  rcases h.caught.asleep hasleep with heq | ⟨w, hw⟩
  · exact heq
  · exact absurd (hidle w) hw

/-- A Read does not sleep over a message that the dispatcher has seen. -/
theorem Inv.wake_owed (h : Inv s) {u r observed : Nat} {o : ReadOptions} (hread : s.reads u = .asleep r o observed)
    (hasleep : s.dispatcher = .asleep) (hnew : (s.endpoints r).cursor ≤ s.lastSeen) : WakeOwed s r := by
  have hu := h.reads u
  rw [hread] at hu
  have hgen : (s.endpoints r).generation = observed := by
    by_contra hne
    have hn := hu.bumped r observed rfl hne
    rw [hasleep] at hn
    cases hn
  rcases (hu.watched r observed rfl hgen).2 hnew with hdue | hclosed | howed
  · rcases hdue with ⟨hd, -⟩ | hin
    · rw [hasleep] at hd
      cases hd
    · rw [hasleep] at hin
      cases hin
  · exact hu.closed r observed rfl hclosed
  · exact howed

theorem cursor_le_of_pending {r : Nat} (h : 0 < pendingCount g s r) : (s.endpoints r).cursor ≤ s.writeSeq := by
  rw [pendingCount] at h
  split at h
  · cases h
  · omega

/-- In every run: the dispatcher does not sleep while there is a sequence it has not seen and
    every publisher is idle. No Read then sleeps over a pending message, but for the moment in
    which the destructor or Close is about to notify it. `notified_up_to` never decreases,
    no sequence is announced to a reader twice, and each Fanout visits each of its readers
    once and calls its callback once for each new message, up to the reader's depth. -/
theorem readers_are_notified (h : Reach (step g pollInterval) fewNotifications init s) :
    (s.dispatcher = .asleep → PublishersIdle s → s.writeSeq = s.lastSeen) ∧
    (∀ u r o observed, s.reads u = .asleep r o observed → 0 < pendingCount g s r → PublishersIdle s →
      s.dispatcher = .asleep → WakeOwed s r) ∧
    (∀ t, Reach (step g pollInterval) fewNotifications (· = s) t →
      ∀ r, (s.endpoints r).notifiedUpTo ≤ (t.endpoints r).notifiedUpTo) ∧
    (∀ r, (s.endpoints r).announced.Nodup) ∧ ∀ f ∈ s.fanouts, f.Complete := by
  have hi := inv h
  refine ⟨hi.seen_all, fun u r o observed hread hpending hidle hasleep => ?_, fun t ht r => notified_run hi ht r,
    fun r => (hi.registry.told r).once, hi.ledger.finished⟩
  have hcursor := cursor_le_of_pending hpending
  rw [hi.seen_all hasleep hidle] at hcursor
  exact hi.wake_owed hread hasleep hcursor

/-- Thread 7 reads from a reader with a callback and sleeps, and so does the dispatcher;
    publisher 3 publishes; the Read gets the message, and the next one sleeps again. -/
def oneMessage : List Act :=
  [Act.create 0 1, .add 0, .setCallback 0 (some 9), .read 7 0 ⟨true, false⟩] ++ List.replicate 5 (Act.advance 7 false) ++
    List.replicate 6 Act.dispatch ++ [Act.commit 3, .notify 3, .wake 3] ++ List.replicate 12 Act.dispatch ++
    [Act.advance 7 false, .advance 7 false, .advance 7 false, .advance 7 true, .read 7 0 ⟨true, false⟩] ++
    List.replicate 5 (Act.advance 7 false)

/-- Fewer than 2^32 notifications in all. -/
def fewInAll (s : St) (_ : Act) : Bool := decide (s.notifications < 2 ^ 32)

def afterOneMessage : Option St :=
  run (fun s a => if fewInAll s a then step Seqlock.smallGeometry 1 s a else none) (start 0 0) oneMessage

theorem fewInAll_few (s : St) (a : Act) (h : fewInAll s a = true) : fewNotifications s a := by
  have hlt : s.notifications < 2 ^ 32 := by simpa [fewInAll] using h
  cases a with
  | dispatch => exact fun _ => Nat.lt_of_le_of_lt (Nat.sub_le _ _) hlt
  | _ => trivial

def readAgain (s : St) : Bool :=
  s.dispatcher == .asleep && s.reads 7 == .asleep 0 ⟨true, false⟩ 1 && s.writeSeq == 1 && s.closer == .idle &&
    (s.endpoints 0).life == .opened && (s.endpoints 0).announced == [1] &&
    s.fanouts == [⟨1, [0], [⟨0, 0, 1, some 9, 1⟩]⟩]

theorem oneMessage_publishers (w : Nat) : afterOneMessage.map (·.publishers w) = some .idle := by
  match w with
  | 0 | 1 | 2 | 3 => decide +kernel
  | w + 4 => rfl

theorem one_message_wakes_its_reader :
    ∃ s, Reach (step Seqlock.smallGeometry 1) fewNotifications init s ∧ s.dispatcher = .asleep ∧ PublishersIdle s ∧
      s.reads 7 = .asleep 0 ⟨true, false⟩ 1 ∧ s.writeSeq = 1 ∧ s.lastSeen = 1 ∧ pendingCount Seqlock.smallGeometry s 0 = 0 ∧
      (s.endpoints 0).announced = [1] ∧ ∃ f ∈ s.fanouts, f.Complete ∧ f.visits = [⟨0, 0, 1, some 9, 1⟩] := by
  obtain ⟨s, hs⟩ : ∃ s, afterOneMessage = some s := Option.isSome_iff_exists.mp (by decide +kernel)
  have hreach : Reach (step Seqlock.smallGeometry 1) fewNotifications init s :=
    reach_checked fewInAll_few (.init ⟨0, 0, rfl⟩) hs
  have hidle : PublishersIdle s := by
    intro w
    have h := oneMessage_publishers w
    rw [hs] at h
    exact Option.some.inj h
  have hfacts : afterOneMessage.map readAgain = some true := by decide +kernel
  rw [hs] at hfacts
  simp only [Option.map_some, Option.some.injEq, readAgain, Bool.and_eq_true, beq_iff_eq] at hfacts
  obtain ⟨⟨⟨⟨⟨⟨hasleep, hread⟩, hseq⟩, hcloser⟩, hlife⟩, hannounced⟩, hfanouts⟩ := hfacts
  obtain ⟨hseen, hblocked, -, -, hcomplete⟩ := readers_are_notified hreach
  refine ⟨s, hreach, hasleep, hidle, hread, hseq, hseq ▸ (hseen hasleep hidle).symm, ?_, hannounced, ?_⟩
  · by_contra hpending
    have howed := hblocked 7 0 _ 1 hread (Nat.pos_of_ne_zero hpending) hidle hasleep
    simp [WakeOwed, hlife, hcloser, ClosePc.owed] at howed
  · rw [hfanouts] at hcomplete ⊢
    exact ⟨_, List.mem_singleton_self _, hcomplete _ (List.mem_singleton_self _), rfl⟩

end PuppetMaster.Shm.Notify
