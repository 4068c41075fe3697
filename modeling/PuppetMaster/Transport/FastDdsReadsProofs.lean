/-
  PuppetMaster.Transport.FastDdsReadsProofs — no Read of a FastDDS reader is forgotten (see
  `PuppetMaster.Transport.FastDdsReads`).

  - `Waiting`: a Read that found nothing saw a generation, and as long as this one stands, what
    is in the queue was not announced. A sample announced later has another generation.
  - `Locking`: `entity_mutex` is held by the Read in `TakeFrom`, unless it runs in the listener.
  - `reads_wake`: so a Read sleeps only while there is nothing that it was told of and the reader
    is open, or somebody is about to wake it.
  - `reads_can_finish`: while no callback waits, what has begun can end. A Read that holds
    `entity_mutex` may wait for the listener, but the listener's callback takes without it.
-/

import Mathlib.Algebra.Order.BigOperators.Group.List
import Mathlib.Algebra.Order.Ring.Nat
import PuppetMaster.Transport.FastDdsReads

namespace PuppetMaster.FastDds.Reads

open PuppetMaster.Core PuppetMaster.Lib

/-! ## Nobody sleeps over a sample -/

def ReadPc.observed : ReadPc → Option Nat
  | .locking _ g | .taking _ g | .missed _ g | .asleep _ g | .woken _ g | .expired _ g => some g
  | _ => none

/-- The Read found nothing, after it had seen this generation. -/
def ReadPc.missedAt : ReadPc → Option Nat
  | .missed _ g | .asleep _ g | .woken _ g | .expired _ g => some g
  | _ => none

def ReadPc.sleepsAt : ReadPc → Option Nat
  | .asleep _ g => some g
  | _ => none

def ListenerPc.isNotifying : ListenerPc → Bool
  | .notifying _ _ => true
  | _ => false

/-- Nothing is there, or a Read will be told of it. -/
def ReaderState.Told (s : ReaderState) : Prop := s.closed = true ∨ s.queue = [] ∨ s.owed = true

structure Waits (s : ReaderState) (pc : ReadPc) : Prop where
  observed : ∀ g, pc.observed = some g → g ≤ s.generation
  told : pc.missedAt = some s.generation → s.Told
  asleep : ∀ g, pc.sleepsAt = some g → (g ≠ s.generation → s.listener.isNotifying = true) ∧ (s.closed = true → s.closer = .closed)

structure Closing (s : ReaderState) : Prop where
  closed : s.closed = true ↔ s.closer ≠ .idle
  attached : s.attached = false → s.closer = .detached ∨ s.closer = .finished

theorem Closing.closed_of_gone {s : ReaderState} (h : Closing s) (hgone : s.attached = false) : s.closed = true := by
  rw [h.closed]
  rcases h.attached hgone with hcloser | hcloser <;> rw [hcloser] <;> exact CloserPc.noConfusion

theorem Closing.step {s t : ReaderState} {move : Move} (h : Closing s) (hstep : Step s move t) : Closing t := by
  cases hstep with
  | setsCallback =>
    split
    · exact h
    · exact ⟨h.closed, h.attached⟩
  | closes hidle =>
    refine ⟨⟨fun _ => CloserPc.noConfusion, fun _ => rfl⟩, fun hgone => ?_⟩
    rcases h.attached hgone with hcloser | hcloser <;> rw [hidle] at hcloser <;> cases hcloser
  | notifiesClosed hclosed =>
    refine ⟨⟨fun _ => CloserPc.noConfusion, fun _ => h.closed.mpr (by rw [hclosed]; exact CloserPc.noConfusion)⟩, fun hgone => ?_⟩
    rcases h.attached hgone with hcloser | hcloser <;> rw [hclosed] at hcloser <;> cases hcloser
  | detaches hnotified _ =>
    exact ⟨⟨fun _ => CloserPc.noConfusion, fun _ => h.closed.mpr (by rw [hnotified]; exact CloserPc.noConfusion)⟩,
      fun _ => .inl rfl⟩
  | deletes hdetached _ =>
    exact ⟨⟨fun _ => CloserPc.noConfusion, fun _ => h.closed.mpr (by rw [hdetached]; exact CloserPc.noConfusion)⟩,
      fun _ => .inr rfl⟩
  | _ => exact ⟨h.closed, h.attached⟩

theorem Waits.outside (s : ReaderState) (a : Option (Result Message)) : Waits s (.outside a) :=
  ⟨fun _ h => (nomatch h), fun h => (nomatch h), fun _ h => (nomatch h)⟩

theorem ready_false {s : ReaderState} {g : Nat} (h : s.ready g = false) : s.closed = false ∧ g = s.generation := by
  simp only [ReaderState.ready, Bool.or_eq_false_iff, decide_eq_false_iff_not, not_not] at h
  exact ⟨h.1, h.2.symm⟩

theorem Waits.goes {s : ReaderState} {i : Nat} {move : Move} {pc pc' : ReadPc} (h : Waits s pc) (hclosing : Closing s)
    (hgoes : Goes s i move pc pc') : Waits s pc' := by
  have hsleeps : ∀ {o g}, s.ready g = false → (∀ g', some g = some g' → g' ≤ s.generation) →
    (some g = some s.generation → s.Told) →
      Waits s (.asleep o g) := by
    intro o g hready hobserved htold
    obtain ⟨hopen, rfl⟩ := ready_false hready
    refine ⟨hobserved, htold, fun g' hg' => ?_⟩
    cases hg'
    exact ⟨fun hne => absurd rfl hne, fun hclosed => by rw [hopen] at hclosed; cases hclosed⟩
  cases hgoes with
  | enters hopen => exact ⟨fun g hg => Nat.le_of_eq (Option.some.inj hg).symm, fun h => (nomatch h), fun _ h => (nomatch h)⟩
  | inListener _ => exact ⟨h.observed, fun h => (nomatch h), fun _ h => (nomatch h)⟩
  | gone _ hgone _ => exact ⟨h.observed, fun _ => .inl (hclosing.closed_of_gone hgone), fun _ h => (nomatch h)⟩
  | sleeps hready => exact hsleeps hready h.observed h.told
  | sleepsOn hready => exact hsleeps hready h.observed h.told
  | wakes => exact ⟨h.observed, h.told, fun _ h => (nomatch h)⟩
  | expires => exact ⟨h.observed, h.told, fun _ h => (nomatch h)⟩
  | _ => exact ⟨fun _ h => (nomatch h), fun h => (nomatch h), fun _ h => (nomatch h)⟩

/-- What does not add a sample that nobody is told of leaves a Read's wait as it is. -/
theorem Waits.kept {s t : ReaderState} {pc : ReadPc} (h : Waits s pc) (hgeneration : t.generation = s.generation)
    (htold : s.Told → t.Told) (hlistener : s.listener.isNotifying = true → t.listener.isNotifying = true)
    (hclosed : t.closed = true → s.closed = true) (hcloser : s.closer = .closed → t.closer = .closed) : Waits t pc := by
  refine ⟨fun g hg => hgeneration ▸ h.observed g hg, fun hmissed => htold (h.told (hgeneration ▸ hmissed)), fun g hg => ?_⟩
  have hasleep := h.asleep g hg
  exact ⟨fun hne => hlistener (hasleep.1 (hgeneration ▸ hne)), fun hshut => hcloser (hasleep.2 (hclosed hshut))⟩

theorem Waits.wake {s : ReaderState} {pc : ReadPc} (h : Waits s pc) : Waits s pc.wake ∧ pc.wake.sleepsAt = none := by
  cases pc with
  | asleep o g => exact ⟨⟨h.observed, h.told, fun _ h => (nomatch h)⟩, rfl⟩
  | _ => exact ⟨h, rfl⟩

def Waiting (s : ReaderState) : Prop := ∀ pc ∈ s.threads, Waits s pc

theorem Waiting.set {s t : ReaderState} {i : Nat} {pc' : ReadPc} (h : Waiting s) (hthreads : t.threads = s.threads.set i pc')
    (hkept : ∀ pc, Waits s pc → Waits t pc) (hnew : Waits t pc') : Waiting t := by
  intro pc hmem
  rw [hthreads] at hmem
  rcases List.mem_or_eq_of_mem_set hmem with hmem | rfl
  · exact hkept pc (h pc hmem)
  · exact hnew

theorem Waiting.step {s t : ReaderState} {move : Move} (h : Waiting s) (hclosing : Closing s) (hstep : Step s move t) :
    Waiting t := by
  cases hstep with
  | goes hi hgoes =>
    have hnew := (h _ (List.mem_of_getElem? hi)).goes hclosing hgoes
    exact h.set rfl (fun pc hpc => hpc.kept rfl id id id id) (hnew.kept rfl id id id id)
  | locks hi hlistener hfree hattached =>
    have hold := h _ (List.mem_of_getElem? hi)
    exact h.set rfl (fun pc hpc => hpc.kept rfl id id id id) ⟨hold.observed, fun h => (nomatch h), fun _ h => (nomatch h)⟩
  | misses hi hmay hqueue hwait =>
    have hold := h _ (List.mem_of_getElem? hi)
    exact h.set rfl (fun pc hpc => hpc.kept rfl id id id id) ⟨hold.observed, fun _ => .inr (.inl hqueue), fun _ h => (nomatch h)⟩
  | returns hi hmay hqueue hwait => exact h.set rfl (fun pc hpc => hpc.kept rfl id id id id) (.outside _ _)
  | takes hi hmay hqueue hvalid =>
    refine h.set rfl (fun pc hpc => hpc.kept rfl ?_ id id id) ⟨fun _ h => (nomatch h), fun h => (nomatch h),
      fun _ h => (nomatch h)⟩
    exact Or.imp_right (Or.imp_left fun hempty => by rw [hqueue] at hempty; cases hempty)
  | skips hi hmay hqueue hvalid =>
    refine fun pc hmem => (h pc hmem).kept rfl ?_ id id id
    exact Or.imp_right (Or.imp_left fun hempty => by rw [hqueue] at hempty; cases hempty)
  | numbers hi => exact h.set rfl (fun pc hpc => hpc.kept rfl id id id id) (.outside _ _)
  | setsCallback =>
    split
    · exact h
    · exact fun pc hmem => (h pc hmem).kept rfl id id id id
  | arrives hcloser hlistener => exact fun pc hmem => (h pc hmem).kept rfl (fun _ => .inr (.inr rfl)) id id id
  | drops hqueue =>
    refine fun pc hmem => (h pc hmem).kept rfl ?_ id id id
    exact Or.imp_right (Or.imp_left fun hempty => by rw [hqueue] at hempty; cases hempty)
  | passes hi hclosed => exact fun pc hmem => (h pc hmem).kept rfl (fun _ => .inl hclosed) id id id
  | hears hi hopen hcloser hlistener =>
    intro pc hmem
    have hold := h pc hmem
    refine ⟨fun g hg => Nat.le_succ_of_le (hold.observed g hg), fun hmissed => ?_,
      fun g hg => ⟨fun _ => rfl, (hold.asleep g hg).2⟩⟩
    -- a Read that missed saw an earlier generation
    have hle := hold.observed (s.generation + 1) (by cases pc <;> first | exact hmissed | cases hmissed)
    omega
  | notifies hlistener =>
    intro pc hmem
    obtain ⟨old, hold, rfl⟩ := List.mem_map.mp hmem
    obtain ⟨hwaits, hawake⟩ := (h old hold).wake
    exact ⟨hwaits.observed, hwaits.told, fun g hg => by rw [hawake] at hg; cases hg⟩
  | heard hlistener hi =>
    exact fun pc hmem =>
      (h pc hmem).kept rfl id (fun hnotifying => by rw [hlistener] at hnotifying; cases hnotifying) id id
  | closes hidle =>
    intro pc hmem
    have hold := h pc hmem
    exact ⟨hold.observed, fun _ => .inl rfl, fun g hg => ⟨(hold.asleep g hg).1, fun _ => rfl⟩⟩
  | notifiesClosed hclosed =>
    intro pc hmem
    obtain ⟨old, hold, rfl⟩ := List.mem_map.mp hmem
    obtain ⟨hwaits, hawake⟩ := (h old hold).wake
    exact ⟨hwaits.observed, hwaits.told, fun g hg => by rw [hawake] at hg; cases hg⟩
  | detaches hnotified hfree =>
    exact fun pc hmem => (h pc hmem).kept rfl id id id fun hclosed => by rw [hnotified] at hclosed; cases hclosed
  | deletes hdetached hlistener =>
    exact fun pc hmem => (h pc hmem).kept rfl id id id fun hclosed => by rw [hdetached] at hclosed; cases hclosed

/-! ## Who may touch the `DataReader` -/

/-- In `TakeFrom`. -/
def ReadPc.inside : ReadPc → Bool
  | .taking _ _ => true
  | .taken _ _ => true
  | _ => false

def ReadPc.isOutside : ReadPc → Bool
  | .outside _ => true
  | _ => false

structure Locks (s : ReaderState) (i : Nat) (pc : ReadPc) : Prop where
  inside : pc.inside = true → s.inListener i = false → s.entityMutex = some i
  holder : s.entityMutex = some i → pc.inside = true ∧ s.inListener i = false
  busy : s.busy i = true → pc.isOutside = true

/-- The thread of a call of the listener. -/
def ListenerPc.thread : ListenerPc → Option Nat
  | .idle => none
  | .notifying i _ => some i
  | .calling i => some i

structure Locking (s : ReaderState) : Prop where
  threads : ∀ i pc, s.threads[i]? = some pc → Locks s i pc
  mutex : ∀ i, s.entityMutex = some i → i < s.threads.length
  listener : ∀ i, s.listener.thread = some i → i < s.threads.length

theorem inside_outside {pc : ReadPc} (h : pc.isOutside = true) : pc.inside = false := by
  cases pc <;> first | rfl | cases h

theorem inListener_iff {s : ReaderState} {i : Nat} : s.inListener i = true ↔ s.listener = .calling i :=
  decide_eq_true_iff

/-- A thread that is in `Read` goes on to a place where it needs the mutex no more, or as much as before. -/
theorem Locks.goes {s : ReaderState} {i : Nat} {move : Move} {pc pc' : ReadPc} (h : Locks s i pc) (hgoes : Goes s i move pc pc') :
    Locks s i pc' := by
  cases hgoes with
  | reads hbusy =>
    exact ⟨fun h => (nomatch h), fun hmutex => (nomatch (h.holder hmutex).1),
      fun hb => (by rw [hbusy] at hb; cases hb)⟩
  | inListener hlistener =>
    exact ⟨fun _ hout => (by rw [hlistener] at hout; cases hout), fun hmutex => (nomatch (h.holder hmutex).1),
      fun hb => (nomatch (h.busy hb))⟩
  | closed => exact ⟨fun h => (nomatch h), fun hmutex => (nomatch (h.holder hmutex).1), fun _ => rfl⟩
  | returns => exact ⟨fun h => (nomatch h), fun hmutex => (nomatch (h.holder hmutex).1), fun _ => rfl⟩
  | timesOut => exact ⟨fun h => (nomatch h), fun hmutex => (nomatch (h.holder hmutex).1), fun _ => rfl⟩
  | _ => exact ⟨fun h => (nomatch h), fun hmutex => (nomatch (h.holder hmutex).1), fun hb => (nomatch (h.busy hb))⟩

theorem Locking.set {s t : ReaderState} {i : Nat} {pc pc' : ReadPc} (h : Locking s) (hi : s.threads[i]? = some pc)
    (hthreads : t.threads = s.threads.set i pc') (hlistener : t.listener = s.listener)
    (hmutex : ∀ j, j ≠ i → (t.entityMutex = some j ↔ s.entityMutex = some j)) (hnew : Locks t i pc') : Locking t := by
  have hlength : t.threads.length = s.threads.length := by rw [hthreads, List.length_set]
  obtain ⟨hlt, -⟩ := List.getElem?_eq_some_iff.mp hi
  refine ⟨fun j pcj hj => ?_, fun j hj => ?_, fun j hj => ?_⟩
  · rw [hthreads, getElem?_set_cases hi] at hj
    split at hj
    · next heq =>
      cases hj
      exact heq ▸ hnew
    · next hne =>
      have hold := h.threads j pcj hj
      have hin : t.inListener j = s.inListener j := by rw [ReaderState.inListener, ReaderState.inListener, hlistener]
      refine ⟨fun hinside hout => (hmutex j hne).mpr (hold.inside hinside (hin ▸ hout)), fun hm => ?_, fun hbusy => hold.busy ?_⟩
      · rw [hin]
        exact hold.holder ((hmutex j hne).mp hm)
      · rwa [ReaderState.busy, hlistener] at hbusy
  · rw [hlength]
    by_cases heq : j = i
    · rw [heq]
      exact hlt
    · exact h.mutex j ((hmutex j heq).mp hj)
  · rw [hlength]
    exact h.listener j (hlistener ▸ hj)

/-- The mutex is free for all others once its holder gave it up. -/
theorem unlock_other (s : ReaderState) {i j : Nat} (hne : j ≠ i) :
    (s.unlock i).entityMutex = some j ↔ s.entityMutex = some j := by
  simp only [ReaderState.unlock]
  split
  · next heq =>
    rw [heq]
    refine ⟨fun h => (nomatch h), fun h => absurd (Option.some.inj h).symm hne⟩
  · exact Iff.rfl

theorem unlock_own (s : ReaderState) (i : Nat) : (s.unlock i).entityMutex ≠ some i := by
  simp only [ReaderState.unlock]
  split
  · exact fun h => (nomatch h)
  · assumption

theorem Locking.step {s t : ReaderState} {move : Move} (h : Locking s) (hstep : Step s move t) : Locking t := by
  have hunlocked : ∀ {i pc pc' r}, s.threads[i]? = some pc → pc.isOutside = false → pc'.inside = false →
      r.threads = s.threads → r.listener = s.listener → r.entityMutex = s.entityMutex →
      Locking ((ReaderState.unlock r i).setThread i pc') := by
    intro i pc pc' r hi hinside houtside hthreads hlistener hmutex
    refine h.set hi (by rw [ReaderState.setThread, ReaderState.unlock, hthreads]) hlistener (fun j hne => ?_) ⟨?_, ?_, ?_⟩
    · rw [← hmutex]
      exact unlock_other r hne
    · rw [houtside]
      exact fun hfalse => (nomatch hfalse)
    · exact fun hmine => absurd hmine (unlock_own r i)
    · intro hbusy
      have hbusy : s.busy i = true := by
        simp only [ReaderState.busy, ReaderState.setThread, ReaderState.unlock, hlistener] at hbusy
        exact hbusy
      have hfalse := (h.threads i pc hi).busy hbusy
      rw [hinside] at hfalse
      cases hfalse
  cases hstep with
  | goes hi hgoes =>
    have hnew := (h.threads _ _ hi).goes hgoes
    exact h.set hi rfl rfl (fun _ _ => Iff.rfl) ⟨hnew.inside, hnew.holder, hnew.busy⟩
  | locks hi hlistener hfree hattached =>
    refine h.set hi rfl rfl (fun j hne => ?_) ⟨fun _ _ => rfl, fun _ => ⟨rfl, hlistener⟩, fun hbusy => ?_⟩
    · rw [hfree]
      exact ⟨fun h => absurd (Option.some.inj h).symm hne, fun h => (nomatch h)⟩
    · exact (nomatch ((h.threads _ _ hi).busy hbusy))
  | misses hi hmay hqueue hwait => exact hunlocked hi rfl rfl rfl rfl rfl
  | returns hi hmay hqueue hwait => exact hunlocked hi rfl rfl rfl rfl rfl
  | numbers hi => exact hunlocked hi rfl rfl rfl rfl rfl
  | takes hi hmay hqueue hvalid =>
    have hold := h.threads _ _ hi
    exact h.set hi rfl rfl (fun _ _ => Iff.rfl) ⟨fun _ => hold.inside rfl, fun hmutex => ⟨rfl, (hold.holder hmutex).2⟩,
      fun hbusy => (nomatch (hold.busy hbusy))⟩
  | setsCallback =>
    split
    · exact h
    · exact ⟨fun i pc hi => ⟨(h.threads i pc hi).inside, (h.threads i pc hi).holder, (h.threads i pc hi).busy⟩,
        h.mutex, h.listener⟩
  | hears hi hopen hcloser hlistener =>
    refine ⟨fun j pc hj => ?_, h.mutex, fun j hj => ?_⟩
    · have hold := h.threads j pc hj
      have hout : s.inListener j = false := by rw [ReaderState.inListener, hlistener]; exact decide_eq_false nofun
      refine ⟨fun hinside _ => hold.inside hinside hout, fun hmutex => ⟨(hold.holder hmutex).1, decide_eq_false nofun⟩,
        fun hbusy => ?_⟩
      have heq := of_decide_eq_true hbusy
      rw [← heq, hi] at hj
      cases hj
      rfl
    · cases hj
      exact (List.getElem?_eq_some_iff.mp hi).1
  | notifies hlistener =>
    rename_i thread callback
    have hlength : (s.threads.map ReadPc.wake).length = s.threads.length := List.length_map _
    refine ⟨fun j pc hj => ?_, fun j hj => hlength ▸ h.mutex j hj, fun j hj => ?_⟩
    · obtain ⟨old, hold, rfl⟩ := Option.map_eq_some_iff.mp (List.getElem?_map ▸ hj)
      have hlocks := h.threads j old hold
      have hinside : old.wake.inside = old.inside := by cases old <;> rfl
      have houtside : old.wake.isOutside = old.isOutside := by cases old <;> rfl
      have hout : s.inListener j = false := by rw [ReaderState.inListener, hlistener]; exact decide_eq_false nofun
      refine ⟨fun hin _ => hlocks.inside (hinside ▸ hin) hout, fun hmutex => ⟨hinside ▸ (hlocks.holder hmutex).1, ?_⟩,
        fun hbusy => ?_⟩
      · cases callback with
        | false => exact decide_eq_false nofun
        | true =>
          -- the thread of the listener is outside, so it does not hold the mutex
          refine decide_eq_false fun hcalling => ?_
          cases hcalling
          have hbusy : s.busy thread = true := by rw [ReaderState.busy, hlistener]; exact decide_eq_true rfl
          have hfalse := inside_outside (hlocks.busy hbusy)
          rw [(hlocks.holder hmutex).1] at hfalse
          cases hfalse
      · cases callback <;> cases hbusy
    · refine Nat.lt_of_lt_of_eq (h.listener j ?_) hlength.symm
      rw [hlistener]
      cases callback with
      | false => cases hj
      | true => exact hj
  | heard hlistener hi =>
    rename_i thread answer
    refine ⟨fun j pc hj => ?_, h.mutex, fun j hj => (nomatch hj)⟩
    have hold := h.threads j pc hj
    refine ⟨fun hinside _ => hold.inside hinside (decide_eq_false fun hcalling => ?_),
      fun hmutex => ⟨(hold.holder hmutex).1, decide_eq_false nofun⟩, fun hbusy => (nomatch hbusy)⟩
    rw [hlistener] at hcalling
    cases hcalling
    rw [hi] at hj
    cases hj
    cases hinside
  | notifiesClosed hclosed =>
    have hlength : (s.threads.map ReadPc.wake).length = s.threads.length := List.length_map _
    refine ⟨fun j pc hj => ?_, fun j hj => hlength ▸ h.mutex j hj, fun j hj => hlength ▸ h.listener j hj⟩
    obtain ⟨old, hold, rfl⟩ := Option.map_eq_some_iff.mp (List.getElem?_map ▸ hj)
    have hlocks := h.threads j old hold
    have hinside : old.wake.inside = old.inside := by cases old <;> rfl
    have houtside : old.wake.isOutside = old.isOutside := by cases old <;> rfl
    exact ⟨fun hin => hlocks.inside (hinside ▸ hin), fun hmutex => hinside ▸ hlocks.holder hmutex,
      fun hbusy => houtside ▸ hlocks.busy hbusy⟩
  | _ =>
    exact ⟨fun i pc hi => ⟨(h.threads i pc hi).inside, (h.threads i pc hi).holder, (h.threads i pc hi).busy⟩,
      h.mutex, h.listener⟩

/-! ## What holds in every run -/

theorem fresh_thread {n : Nat} {i : Nat} {pc : ReadPc} (h : (List.replicate n (ReadPc.outside none))[i]? = some pc) :
    pc = .outside none := by
  obtain ⟨hlt, heq⟩ := List.getElem?_eq_some_iff.mp h
  rw [List.getElem_replicate] at heq
  exact heq.symm

structure Inv (s : ReaderState) : Prop where
  closing : Closing s
  waiting : Waiting s
  locking : Locking s

theorem inv {ok : ReaderState → Move → Prop} {s : ReaderState} (h : Reached ok s) : Inv s := by
  refine Reach.invariant ?_ (fun s move t hinv _ hstep => ?_) h
  · rintro s ⟨n, rfl⟩
    refine ⟨⟨⟨fun h => (nomatch h), fun h => absurd rfl h⟩, fun h => (nomatch h)⟩, fun pc hmem => ?_, fun i pc hi => ?_,
      fun i h => (nomatch h), fun i h => (nomatch h)⟩
    · obtain rfl := List.eq_of_mem_replicate hmem
      exact .outside _ _
    · obtain rfl := fresh_thread hi
      exact ⟨fun h => (nomatch h), fun h => (nomatch h), fun _ => rfl⟩
  · have hcases := step_cases hstep
    exact ⟨hinv.closing.step hcases, hinv.waiting.step hinv.closing hcases, hinv.locking.step hcases⟩

/-- A Read that sleeps will be woken: the reader is open, or `Shutdown` is about to notify; and
what is in the queue was not announced yet, or the listener is about to notify. -/
theorem reads_wake {ok : ReaderState → Move → Prop} {s : ReaderState} (h : Reached ok s) {options : ReadOptions} {observed : Nat}
    (hasleep : .asleep options observed ∈ s.threads) :
    (s.closed = false ∨ s.closer = .closed) ∧
      (observed = s.generation ∧ (s.closed = true ∨ s.queue = [] ∨ s.owed = true) ∨ s.listener.isNotifying = true) := by
  have hwaits := (inv h).waiting _ hasleep
  obtain ⟨hbumped, hshut⟩ := hwaits.asleep observed rfl
  constructor
  · rw [← Bool.not_eq_true]
    exact (em (s.closed = true)).symm.imp_right hshut
  · by_cases hsame : observed = s.generation
    · exact .inl ⟨hsame, hwaits.told (congrArg some hsame)⟩
    · exact .inr (hbumped hsame)

/-- A Read sleeps when a sample comes, and the listener is called. -/
def toldAsleep : List Move :=
  [.reads 0 { wait := true, timed := false }, .enters 0, .locks 0, .takes 0, .waits 0, .arrives [1] true, .hears 1]

theorem reads_wake_toldAsleep :
    ∃ s, Reached anyMove s ∧ s.threads[0]? = some (.asleep { wait := true, timed := false } 0)
    ∧ s.listener.isNotifying = true := by
  obtain ⟨s, hreached, hend⟩ := @reach_of_run _ _ step Fresh _ toldAsleep
    (fun s => decide (s.threads[0]? = some (ReadPc.asleep { wait := true, timed := false } 0) ∧ s.generation = 1)) ⟨2, rfl⟩
    (by decide +kernel)
  obtain ⟨hasleep, hgeneration⟩ := of_decide_eq_true hend
  have hwakes := (reads_wake hreached (List.mem_of_getElem? hasleep)).2
  refine ⟨s, hreached, hasleep, hwakes.resolve_left fun hsame => ?_⟩
  rw [hgeneration] at hsame
  exact absurd hsame.1 (by decide)

/-! ## What has begun can end -/

def ReadPc.options : ReadPc → Option ReadOptions
  | .outside _ => none
  | .entering o | .locking o _ | .taking o _ | .taken o _ | .missed o _ | .asleep o _ | .woken o _ | .expired o _ => some o

/-- A callback does not begin a Read that waits. -/
def callbacksDoNotWait (s : ReaderState) (move : Move) : Prop :=
  ∀ i options, move = .reads i options → s.inListener i = true → options.wait = false

def NoWait (s : ReaderState) : Prop :=
  ∀ i pc, s.threads[i]? = some pc → s.inListener i = true → pc.missedAt = none ∧ ∀ o, pc.options = some o → o.wait = false

theorem NoWait.set {s t : ReaderState} {i : Nat} {pc pc' : ReadPc} (h : NoWait s) (hi : s.threads[i]? = some pc)
    (hthreads : t.threads = s.threads.set i pc') (hlistener : t.listener = s.listener)
    (hnew : s.inListener i = true → pc'.missedAt = none ∧ ∀ o, pc'.options = some o → o.wait = false) : NoWait t := by
  intro j pcj hj hin
  rw [ReaderState.inListener, hlistener] at hin
  rw [hthreads, getElem?_set_cases hi] at hj
  split at hj
  · next heq =>
    cases hj
    exact hnew (heq ▸ hin)
  · exact h j pcj hj hin

theorem NoWait.step {s t : ReaderState} {move : Move} (h : NoWait s) (hlocking : Locking s) (hok : callbacksDoNotWait s move)
    (hstep : Step s move t) : NoWait t := by
  cases hstep with
  | goes hi hgoes =>
    refine h.set hi rfl rfl fun hin => ?_
    have hold := h _ _ hi hin
    cases hgoes with
    | reads hbusy => exact ⟨rfl, fun o ho => Option.some.inj ho ▸ hok _ _ rfl hin⟩
    | enters hopen => exact ⟨rfl, hold.2⟩
    | inListener hlistener => exact ⟨rfl, hold.2⟩
    | gone hout hgone hwait => rw [hout] at hin; cases hin
    | closed => exact ⟨rfl, fun o ho => (nomatch ho)⟩
    | returns hout => exact ⟨rfl, fun o ho => (nomatch ho)⟩
    | _ => exact (nomatch hold.1)
  | locks hi hout hfree hattached => exact h.set hi rfl rfl fun hin => (by rw [hout] at hin; cases hin)
  | misses hi hmay hqueue hwait =>
    refine h.set hi rfl rfl fun hin => ?_
    have hfalse := (h _ _ hi hin).2 _ rfl
    rw [hwait] at hfalse
    cases hfalse
  | returns hi hmay hqueue hwait => exact h.set hi rfl rfl fun hin => ⟨rfl, fun o ho => (nomatch ho)⟩
  | takes hi hmay hqueue hvalid => exact h.set hi rfl rfl fun hin => ⟨rfl, (h _ _ hi hin).2⟩
  | numbers hi => exact h.set hi rfl rfl fun hin => ⟨rfl, fun o ho => (nomatch ho)⟩
  | setsCallback =>
    split
    · exact h
    · exact h
  | hears hi hopen hcloser hlistener => exact fun j pc hj hin => (nomatch inListener_iff.mp hin)
  | notifies hlistener =>
    rename_i thread callback
    intro j pc hj hin
    obtain ⟨old, hold, rfl⟩ := Option.map_eq_some_iff.mp (List.getElem?_map ▸ hj)
    have hcalling := inListener_iff.mp hin
    cases callback with
    | false => cases hcalling
    | true =>
      cases hcalling
      -- the thread of the listener is not in a Read yet
      have hbusy : s.busy thread = true := by rw [ReaderState.busy, hlistener]; exact decide_eq_true rfl
      have houtside := (hlocking.threads _ _ hold).busy hbusy
      cases old with
      | outside answer => exact ⟨rfl, fun o ho => (nomatch ho)⟩
      | _ => cases houtside
  | heard hlistener hi => exact fun j pc hj hin => (nomatch inListener_iff.mp hin)
  | notifiesClosed hclosed =>
    intro j pc hj hin
    obtain ⟨old, hold, rfl⟩ := Option.map_eq_some_iff.mp (List.getElem?_map ▸ hj)
    have hwaits := h j old hold hin
    cases old with
    | asleep o g => cases hwaits.1
    | _ => exact hwaits
  | _ => exact h

/-- The moves that begin nothing new. -/
inductive Finishing : Move → Prop
  | enters (i : Nat) : Finishing (.enters i)
  | locks (i : Nat) : Finishing (.locks i)
  | takes (i : Nat) : Finishing (.takes i)
  | numbers (i : Nat) : Finishing (.numbers i)
  | waits (i : Nat) : Finishing (.waits i)
  | resumes (i : Nat) : Finishing (.resumes i)
  | notifies : Finishing .notifies
  | returns : Finishing .returns
  | notifiesClosed : Finishing .notifiesClosed
  | detaches : Finishing .detaches
  | deletes : Finishing .deletes

/-- The calls of `notify_all` to come. -/
def ReaderState.wakeUps (s : ReaderState) : Nat := s.listener.isNotifying.toNat + (decide (s.closer = .closed)).toNat

/-- How far a thread is from the end of its Read, or from sleep; one that sleeps may be woken. -/
def ReaderState.weight (s : ReaderState) : ReadPc → Nat
  | .outside _ => 0
  | .asleep _ _ => 6 * s.wakeUps
  | .taken _ _ => 6 * s.wakeUps + 1
  | .missed _ g | .woken _ g | .expired _ g => 6 * s.wakeUps + if s.ready g then 5 else 1
  | .entering _ => 6 * s.wakeUps + 4
  | .locking _ g => 6 * s.wakeUps + if s.ready g then 7 else 3
  | .taking _ g => 6 * s.wakeUps + if s.ready g then 6 else 2

def ListenerPc.work : ListenerPc → Nat
  | .idle => 0
  | .notifying _ _ => 2
  | .calling _ => 1

def CloserPc.work : CloserPc → Nat
  | .idle => 0
  | .closed => 3
  | .notified => 2
  | .detached => 1
  | .finished => 0

def ReaderState.work (s : ReaderState) : Nat :=
  (s.threads.map s.weight).sum + s.queue.length + s.listener.work + s.closer.work

/-- A move of what has begun, which brings it closer to its end. -/
def Moves (s : ReaderState) : Prop := ∃ move t, Finishing move ∧ step s move = some t ∧ t.work < s.work

theorem moves_of_thread {s t : ReaderState} {i : Nat} {move : Move} {pc pc' : ReadPc} (hfinishing : Finishing move)
    (hi : s.threads[i]? = some pc) (hstep : step s move = some t) (hthreads : t.threads = s.threads.set i pc')
    (hweight : t.weight = s.weight) (hqueue : t.queue.length ≤ s.queue.length) (hlistener : t.listener = s.listener)
    (hcloser : t.closer = s.closer) (hless : s.weight pc' < s.weight pc) : Moves s := by
  refine ⟨move, t, hfinishing, hstep, ?_⟩
  have hsum := sum_set_exchange (w := s.weight) pc' hi
  rw [ReaderState.work, ReaderState.work, hthreads, hweight, hlistener, hcloser]
  omega

theorem moves_to {s : ReaderState} {i : Nat} {move : Move} {pc : ReadPc} (pc' : ReadPc) (hfinishing : Finishing move)
    (hi : s.threads[i]? = some pc) (hstep : step s move = some (s.setThread i pc'))
    (hless : s.weight pc' < s.weight pc) : Moves s :=
  moves_of_thread hfinishing hi hstep rfl rfl (Nat.le_refl _) rfl rfl hless

theorem enters_moves {s : ReaderState} {i : Nat} {o : ReadOptions} (hi : s.threads[i]? = some (.entering o)) : Moves s := by
  cases hclosed : s.closed with
  | true =>
    refine moves_to (.outside (some (.error readerIsClosed))) (.enters i) hi ?_ ?_
    · simp only [step, hi, hclosed, if_true, ReaderState.answer]
    · simp only [ReaderState.weight]
      omega
  | false =>
    refine moves_to (.locking o s.generation) (.enters i) hi ?_ ?_
    · simp only [step, hi, hclosed, Bool.false_eq_true, if_false]
    · have hready : s.ready s.generation = false := by simp [ReaderState.ready, hclosed]
      simp only [ReaderState.weight, hready, Bool.false_eq_true, if_false]
      omega

/-- Where a Read checks the predicate of its wait. -/
theorem checks_move {s : ReaderState} {i g : Nat} {o : ReadOptions}
    (hi : s.threads[i]? = some (.missed o g) ∨ s.threads[i]? = some (.woken o g)
      ∨ s.threads[i]? = some (.expired o g)) : Moves s := by
  cases hready : s.ready g with
  | true =>
    have hless : ∀ pc, s.weight pc = 6 * s.wakeUps + (if s.ready g then 5 else 1) → s.weight (.entering o) < s.weight pc := by
      intro pc hpc
      rw [hpc, hready, if_pos rfl]
      exact Nat.lt_succ_self _
    rcases hi with hi | hi | hi
    · exact moves_to (.entering o) (.waits i) hi (by simp only [step, hi, hready, if_true]) (hless _ rfl)
    · exact moves_to (.entering o) (.resumes i) hi (by simp only [step, hi, hready, if_true]) (hless _ rfl)
    · exact moves_to (.entering o) (.resumes i) hi (by simp only [step, hi, hready, if_true]) (hless _ rfl)
  | false =>
    have hless : ∀ pc, s.weight pc = 6 * s.wakeUps + (if s.ready g then 5 else 1) → s.weight (.asleep o g) < s.weight pc := by
      intro pc hpc
      rw [hpc, hready]
      exact Nat.lt_succ_self _
    rcases hi with hi | hi | hi
    · exact moves_to (.asleep o g) (.waits i) hi (by simp only [step, hi, hready, Bool.false_eq_true, if_false]) (hless _ rfl)
    · exact moves_to (.asleep o g) (.resumes i) hi (by simp only [step, hi, hready, Bool.false_eq_true, if_false]) (hless _ rfl)
    · refine moves_to (.outside (some (.error timedOut))) (.resumes i) hi ?_ ?_
      · simp only [step, hi, hready, Bool.false_eq_true, if_false, ReaderState.answer]
      · simp only [ReaderState.weight, hready, Bool.false_eq_true, if_false]
        omega

theorem numbers_moves {s : ReaderState} {i : Nat} {o : ReadOptions} {sample : Sample}
    (hi : s.threads[i]? = some (.taken o sample)) : Moves s := by
  have hstep : step s (.numbers i) = some ((ReaderState.unlock { s with
      sequence := s.sequence + 1
      delivered := s.delivered ++ [{ sequence := s.sequence + 1, sample }] } i).answer i
        (.ok { sequence := s.sequence + 1, sample })) := by simp only [step, hi]
  refine moves_of_thread (.numbers i) hi hstep rfl rfl (Nat.le_refl _) rfl rfl ?_
  simp only [ReaderState.weight]
  omega

theorem miss_less (s : ReaderState) (o : ReadOptions) (g : Nat) (status : Status) (bound : Nat)
    (hbound : 6 * s.wakeUps + (if s.ready g then 5 else 1) < bound) :
    ∃ pc, (∀ (t : ReaderState) (i : Nat), t.miss i o g status = t.setThread i pc) ∧ s.weight pc < bound := by
  cases hwait : o.wait with
  | true =>
    refine ⟨.missed o g, fun t i => ?_, hbound⟩
    rw [ReaderState.miss, if_pos hwait]
  | false =>
    refine ⟨.outside (some (.error status)), fun t i => ?_, Nat.lt_of_le_of_lt (Nat.zero_le _) hbound⟩
    rw [ReaderState.miss, hwait]
    rfl

theorem takes_moves {s : ReaderState} {i g : Nat} {o : ReadOptions} (hi : s.threads[i]? = some (.taking o g))
    (hmay : s.mayTake i = true) : Moves s := by
  have hbound : 6 * s.wakeUps + (if s.ready g then 5 else 1) < s.weight (.taking o g) := by
    simp only [ReaderState.weight]
    split <;> omega
  cases hqueue : s.queue with
  | nil =>
    obtain ⟨pc, hmiss, hless⟩ := miss_less s o g noMessage _ hbound
    have hstep : step s (.takes i) = some ((s.unlock i).setThread i pc) := by simp only [step, hi, hmay, if_true, hqueue, hmiss]
    exact moves_of_thread (.takes i) hi hstep rfl rfl (Nat.le_refl _) rfl rfl hless
  | cons sample rest =>
    have hshorter : rest.length < s.queue.length := by rw [hqueue]; exact Nat.lt_succ_self _
    cases hvalid : sample.valid with
    | true =>
      have hstep : step s (.takes i) = some ({ s with queue := rest }.setThread i (.taken o sample)) := by
        simp only [step, hi, hmay, if_true, hqueue, hvalid]
      refine moves_of_thread (.takes i) hi hstep rfl rfl (Nat.le_of_lt hshorter) rfl rfl ?_
      simp only [ReaderState.weight]
      split <;> omega
    | false =>
      refine ⟨.takes i, { s with queue := rest, skipped := s.skipped ++ [sample] }, .takes i, ?_, ?_⟩
      · simp only [step, hi, hmay, if_true, hqueue, hvalid, Bool.false_eq_true, if_false]
      · have hweight : ReaderState.weight { s with queue := rest, skipped := s.skipped ++ [sample] } = s.weight := rfl
        simp only [ReaderState.work, hweight]
        omega

theorem locks_moves {s : ReaderState} {i g : Nat} {o : ReadOptions} (hi : s.threads[i]? = some (.locking o g))
    (hfree : s.inListener i = true ∨ s.entityMutex = none) : Moves s := by
  have htaking : s.weight (.taking o g) < s.weight (.locking o g) := by
    simp only [ReaderState.weight]
    split <;> omega
  cases hin : s.inListener i with
  | true => exact moves_to (.taking o g) (.locks i) hi (by simp only [step, hi, hin, if_true]) htaking
  | false =>
    have hfree : s.entityMutex = none := hfree.resolve_left (by rw [hin]; exact Bool.false_ne_true)
    cases hattached : s.attached with
    | true =>
      have hstep : step s (.locks i) = some ({ s with entityMutex := some i }.setThread i (.taking o g)) := by
        simp only [step, hi, hin, hfree, hattached, Bool.false_eq_true, if_false, ne_eq, not_true_eq_false, if_true]
      exact moves_of_thread (.locks i) hi hstep rfl rfl (Nat.le_refl _) rfl rfl htaking
    | false =>
      have hbound : 6 * s.wakeUps + (if s.ready g then 5 else 1) < s.weight (.locking o g) := by
        simp only [ReaderState.weight]
        split <;> omega
      obtain ⟨pc, hmiss, hless⟩ := miss_less s o g readerIsClosed _ hbound
      refine moves_to pc (.locks i) hi ?_ hless
      simp only [step, hi, hin, hfree, hattached, Bool.false_eq_true, if_false, ne_eq, not_true_eq_false, hmiss]

/-- A thread that is neither outside nor asleep goes on, if it can have what it needs. -/
theorem thread_moves {s : ReaderState} {i : Nat} {pc : ReadPc} (hi : s.threads[i]? = some pc)
    (hfree : s.inListener i = true ∨ s.entityMutex = none ∨ pc.inside = true) (hmay : s.mayTake i = true) :
    (∃ a, pc = .outside a) ∨ (∃ o g, pc = .asleep o g) ∨ Moves s := by
  cases pc with
  | outside a => exact .inl ⟨a, rfl⟩
  | asleep o g => exact .inr (.inl ⟨o, g, rfl⟩)
  | entering o => exact .inr (.inr (enters_moves hi))
  | locking o g =>
    refine .inr (.inr (locks_moves hi (hfree.imp_right fun h => ?_)))
    exact h.resolve_right (fun hinside => (nomatch hinside))
  | taking o g => exact .inr (.inr (takes_moves hi hmay))
  | taken o sample => exact .inr (.inr (numbers_moves hi))
  | missed o g => exact .inr (.inr (checks_move (.inl hi)))
  | woken o g => exact .inr (.inr (checks_move (.inr (.inl hi))))
  | expired o g => exact .inr (.inr (checks_move (.inr (.inr hi))))

theorem weight_eq {s t : ReaderState} (hready : t.ready = s.ready) (hwakeUps : t.wakeUps = s.wakeUps) : t.weight = s.weight := by
  funext pc
  cases pc <;> simp only [ReaderState.weight, hready, hwakeUps]

/-- `notify_all` wakes threads, but there is one call of it less to come. -/
theorem notifyAll_weight {s t : ReaderState} (hready : t.ready = s.ready) (hfewer : t.wakeUps < s.wakeUps) (pc : ReadPc) :
    t.weight pc.wake ≤ s.weight pc := by
  cases pc with
  | outside a => exact Nat.le_refl _
  | asleep o g =>
    simp only [ReadPc.wake, ReaderState.weight]
    split <;> omega
  | _ =>
    simp only [ReadPc.wake, ReaderState.weight, hready]
    omega

theorem notifyAll_moves {s t : ReaderState} {move : Move} (hfinishing : Finishing move) (hstep : step s move = some t)
    (hthreads : t.threads = s.threads.map ReadPc.wake) (hready : t.ready = s.ready) (hqueue : t.queue = s.queue)
    (hfewer : t.wakeUps < s.wakeUps) (hless : t.listener.work + t.closer.work < s.listener.work + s.closer.work) : Moves s := by
  refine ⟨move, t, hfinishing, hstep, ?_⟩
  have hsum : (t.threads.map t.weight).sum ≤ (s.threads.map s.weight).sum := by
    rw [hthreads, List.map_map]
    exact List.sum_le_sum fun pc _ => notifyAll_weight hready hfewer pc
  rw [ReaderState.work, ReaderState.work, hqueue]
  omega

theorem notifies_moves {s : ReaderState} {i : Nat} {callback : Bool} (hlistener : s.listener = .notifying i callback) :
    Moves s := by
  have hstep : step s .notifies = some { s.notifyAll with listener := if callback then .calling i else .idle } := by
    simp only [step, hlistener]
  have hnotifying : (if callback then ListenerPc.calling i else .idle).isNotifying = false := by cases callback <;> rfl
  refine notifyAll_moves .notifies hstep rfl rfl rfl ?_ ?_
  · simp only [ReaderState.wakeUps, ReaderState.notifyAll, hlistener, hnotifying]
    exact Nat.add_lt_add_right Nat.one_pos _
  · simp only [ReaderState.notifyAll, hlistener]
    refine Nat.add_lt_add_right ?_ _
    cases callback
    · exact Nat.two_pos
    · exact Nat.one_lt_two

theorem notifiesClosed_moves {s : ReaderState} (hclosed : s.closer = .closed) : Moves s := by
  have hstep : step s .notifiesClosed = some { s.notifyAll with closer := .notified } := by simp only [step, hclosed, if_true]
  refine notifyAll_moves .notifiesClosed hstep rfl rfl rfl ?_ ?_
  · simp only [ReaderState.wakeUps, ReaderState.notifyAll, hclosed]
    exact Nat.add_lt_add_left Nat.one_pos _
  · simp only [ReaderState.notifyAll, hclosed]
    exact Nat.add_lt_add_left (Nat.lt_succ_self 2) _

/-- A call of the listener goes on: the thread that runs its callback needs no mutex and does not sleep. -/
theorem listener_moves {s : ReaderState} (hlocking : Locking s) (hnowait : NoWait s) (hbusy : s.listener ≠ .idle) : Moves s := by
  cases hlistener : s.listener with
  | idle => exact absurd hlistener hbusy
  | notifying i callback => exact notifies_moves hlistener
  | calling i =>
    have hlt := hlocking.listener i (by rw [hlistener]; rfl)
    have hi : s.threads[i]? = some s.threads[i] := List.getElem?_eq_getElem hlt
    have hin := inListener_iff.mpr hlistener
    have hmay : s.mayTake i = true := by rw [ReaderState.mayTake, hin]; rfl
    rcases thread_moves hi (.inl hin) hmay with ⟨a, ha⟩ | ⟨o, g, hasleep⟩ | hmoves
    · rw [ha] at hi
      refine ⟨.returns, { s with listener := .idle }, .returns, by simp only [step, hlistener, hi], ?_⟩
      have hweight : ReaderState.weight { s with listener := .idle } = s.weight :=
        weight_eq rfl (by simp only [ReaderState.wakeUps, hlistener, ListenerPc.isNotifying])
      simp only [ReaderState.work, hweight, hlistener, ListenerPc.work]
      omega
    · rw [hasleep] at hi
      cases (hnowait _ _ hi hin).1
    · exact hmoves

/-- Nothing that has begun can go on. -/
structure Quiet (s : ReaderState) : Prop where
  threads : ∀ pc ∈ s.threads, (∃ a, pc = .outside a) ∨ ∃ o g, pc = .asleep o g
  listener : s.listener = .idle
  closer : s.closer = .idle ∨ s.closer = .finished

theorem moves {s : ReaderState} (hinv : Inv s) (hnowait : NoWait s) (hbusy : ¬ Quiet s) : Moves s := by
  by_cases hlistener : s.listener = .idle
  · have hmay : ∀ i, s.mayTake i = true := fun i => by rw [ReaderState.mayTake, decide_eq_true hlistener, Bool.or_true]
    by_cases hthreads : ∀ pc ∈ s.threads, (∃ a, pc = .outside a) ∨ ∃ o g, pc = .asleep o g
    · have hfree : s.entityMutex = none := by
        cases hmutex : s.entityMutex with
        | none => rfl
        | some i =>
          have hlt := hinv.locking.mutex i hmutex
          have hinside := ((hinv.locking.threads i _ (List.getElem?_eq_getElem hlt)).holder hmutex).1
          rcases hthreads _ (List.getElem_mem hlt) with ⟨a, ha⟩ | ⟨o, g, hasleep⟩
          · rw [ha] at hinside
            cases hinside
          · rw [hasleep] at hinside
            cases hinside
      cases hcloser : s.closer with
      | idle => exact absurd ⟨hthreads, hlistener, .inl hcloser⟩ hbusy
      | finished => exact absurd ⟨hthreads, hlistener, .inr hcloser⟩ hbusy
      | closed => exact notifiesClosed_moves hcloser
      | notified =>
        refine ⟨.detaches, { s with attached := false, closer := .detached }, .detaches,
          by simp only [step, hcloser, hfree, and_self, if_true], ?_⟩
        have hweight : ReaderState.weight { s with attached := false, closer := .detached } = s.weight :=
          weight_eq rfl (by simp only [ReaderState.wakeUps, hcloser]; rfl)
        simp only [ReaderState.work, hweight, hcloser, CloserPc.work]
        omega
      | detached =>
        refine ⟨.deletes, { s with closer := .finished }, .deletes,
          by simp only [step, hcloser, hlistener, and_self, if_true], ?_⟩
        have hweight : ReaderState.weight { s with closer := .finished } = s.weight :=
          weight_eq rfl (by simp only [ReaderState.wakeUps, hcloser]; rfl)
        simp only [ReaderState.work, hweight, hcloser, CloserPc.work]
        omega
    · obtain ⟨pc, hmem, hpc⟩ := by simpa only [not_forall] using hthreads
      obtain ⟨i, hi⟩ := List.mem_iff_getElem?.mp hmem
      have hgoes : ∀ {j : Nat} {pcj : ReadPc}, s.threads[j]? = some pcj → pcj.inside = true → Moves s := by
        intro j pcj hj hinside
        rcases thread_moves hj (.inr (.inr hinside)) (hmay j) with ⟨a, rfl⟩ | ⟨o, g, rfl⟩ | hmoves
        · cases hinside
        · cases hinside
        · exact hmoves
      cases hmutex : s.entityMutex with
      | none =>
        rcases thread_moves hi (.inr (.inl hmutex)) (hmay i) with hout | hasleep | hmoves
        · exact absurd (.inl hout) hpc
        · exact absurd (.inr hasleep) hpc
        · exact hmoves
      | some j =>
        -- the holder of the mutex goes first
        have hlt := hinv.locking.mutex j hmutex
        have hj := List.getElem?_eq_getElem hlt
        exact hgoes hj ((hinv.locking.threads j _ hj).holder hmutex).1
  · exact listener_moves hinv.locking hnowait hlistener

theorem nowait {s : ReaderState} (h : Reached callbacksDoNotWait s) : NoWait s := by
  refine Reach.invariant_reach ?_ (fun s move t hreached ih hok hstep => ?_) h
  · rintro s ⟨n, rfl⟩ i pc hi hin
    cases inListener_iff.mp hin
  · exact ih.step (inv hreached).locking hok (step_cases hstep)

theorem finishing_ok {s : ReaderState} {move : Move} (h : Finishing move) : callbacksDoNotWait s move := by
  rintro i options rfl
  cases h

/-- While no callback waits, what has begun can end: the Reads, the calls of the listener and
`Shutdown` do not wait for each other. What still sleeps then is waiting for a call of the listener. -/
theorem reads_can_finish {s : ReaderState} (h : Reached callbacksDoNotWait s) :
    ∃ moves t, (∀ move ∈ moves, Finishing move) ∧ run step s moves = some t ∧ t.listener = .idle ∧
      (t.closer = .idle ∨ t.closer = .finished) ∧
      ∀ pc ∈ t.threads, (∃ a, pc = .outside a) ∨
        (∃ o, pc = .asleep o t.generation) ∧ t.closed = false ∧ (t.queue = [] ∨ t.owed = true) := by
  obtain ⟨moves, t, hall, hrun, hreached, hquiet⟩ := @Reach.drains _ _ _ callbacksDoNotWait _ Quiet Finishing ReaderState.work
    (fun s hs hbusy =>
      have ⟨move, t, hfinishing, hstep, hless⟩ := PuppetMaster.FastDds.Reads.moves (inv hs) (nowait hs) hbusy
      ⟨move, t, hfinishing, finishing_ok hfinishing, hstep, hless⟩) s h
  refine ⟨moves, t, hall, hrun, hquiet.listener, hquiet.closer, fun pc hmem => ?_⟩
  refine (hquiet.threads pc hmem).imp_right ?_
  rintro ⟨o, g, rfl⟩
  obtain ⟨hopen, hwakes⟩ := reads_wake hreached hmem
  have hopen : t.closed = false := by
    refine hopen.resolve_right fun hclosed => ?_
    rcases hquiet.closer with hcloser | hcloser <;> rw [hclosed] at hcloser <;> cases hcloser
  rw [hquiet.listener] at hwakes
  obtain ⟨rfl, htold⟩ := hwakes.resolve_right Bool.false_ne_true
  exact ⟨⟨o, rfl⟩, hopen, htold.resolve_left fun hclosed => (by rw [hopen] at hclosed; cases hclosed)⟩

/-- A Read holds the mutex when the listener's callback reads, and the reader is being closed. -/
def readsInCallback : List Move :=
  [.setsCallback true, .reads 0 { wait := true, timed := true }, .enters 0, .locks 0, .arrives [1] true, .hears 1, .notifies,
    .reads 1 { wait := false, timed := false }, .closes, .notifiesClosed]

theorem reads_can_finish_readsInCallback :
    ∃ s, Reached callbacksDoNotWait s ∧ s.entityMutex = some 0 ∧ s.listener = .calling 1 ∧ s.closer = .notified ∧
      ∃ moves t, (∀ move ∈ moves, Finishing move) ∧ run step s moves = some t ∧ t.listener = .idle := by
  obtain ⟨s, hreached, hend⟩ := @reach_of_check _ _ step callbacksDoNotWait Fresh _
    (fun s move => match move with
      | .reads i options => !s.inListener i || !options.wait
      | _ => true) readsInCallback
    (fun s => decide (s.entityMutex = some 0 ∧ s.listener = .calling 1 ∧ s.closer = .notified))
    (fun s move hcheck i options hmove hin => by
      subst hmove
      simpa [hin] using hcheck) ⟨2, rfl⟩ (by decide +kernel)
  obtain ⟨hmutex, hlistener, hcloser⟩ := of_decide_eq_true hend
  obtain ⟨moves, t, hall, hrun, hidle, -⟩ := reads_can_finish hreached
  exact ⟨s, hreached, hmutex, hlistener, hcloser, moves, t, hall, hrun, hidle⟩

end PuppetMaster.FastDds.Reads
