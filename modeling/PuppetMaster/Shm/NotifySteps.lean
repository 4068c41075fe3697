/-
  PuppetMaster.Shm.NotifySteps — what a move of the notification machine can do
  (see `PuppetMaster.Shm.Notify`).

  `Step` lists the moves by their effect: the many moves of a Read that commit it to nothing
  new are one case (`quiet`), and so are the dispatcher's moves that end an iteration
  (`turn`). `step_cases` says that this is all there is.
-/

import PuppetMaster.Shm.Notify

namespace PuppetMaster.Shm.Notify

open PuppetMaster.Lib PuppetMaster.Shm

/-! ## Where the parties are -/

/-- The dispatcher has loaded the sequence after the word it will wait on. -/
def DispatcherPc.saw : DispatcherPc → Bool
  | .copying | .visiting _ _ | .notifying _ _ _ | .calling _ _ _ _ | .rechecking | .waiting | .futex => true
  | _ => false

/-- The Fanout that is running. -/
def DispatcherPc.fanout : DispatcherPc → Option Fanout
  | .visiting f _ | .notifying f _ _ | .calling f _ _ _ => some f
  | _ => none

/-- The readers Fanout has still to visit. -/
def DispatcherPc.remaining : DispatcherPc → List Nat
  | .visiting _ rest | .notifying _ _ rest | .calling _ _ _ rest => rest
  | _ => []

/-- Fanout has bumped the generation of this reader and has still to notify its Reads. -/
def DispatcherPc.notifies : DispatcherPc → Option Nat
  | .notifying _ v _ => some v.reader
  | _ => none

def ReadPc.reader : ReadPc → Option Nat
  | .idle => none
  | .entering r _ | .looping r _ | .trying r _ _ _ | .checking r _ _ | .waiting r _ _ | .asleep r _ _ | .woken r _ _
  | .expired r _ _ => some r

/-- The reader, and the generation observed before TryRead. -/
def ReadPc.observes : ReadPc → Option (Nat × Nat)
  | .trying r _ observed _ | .checking r _ observed | .waiting r _ observed | .asleep r _ observed
  | .woken r _ observed | .expired r _ observed => some (r, observed)
  | _ => none

/-- The same once Pending found nothing. -/
def ReadPc.watches : ReadPc → Option (Nat × Nat)
  | .waiting r _ observed | .asleep r _ observed | .woken r _ observed | .expired r _ observed => some (r, observed)
  | _ => none

def ReadPc.sleeps : ReadPc → Option (Nat × Nat)
  | .asleep r _ observed => some (r, observed)
  | _ => none

/-- `pc'` commits its thread to nothing that `pc` did not. -/
structure ReadPc.Weaker (pc' pc : ReadPc) : Prop where
  reader : ∀ r, pc'.reader = some r → pc.reader = some r
  observes : ∀ o, pc'.observes = some o → pc.observes = some o
  watches : ∀ o, pc'.watches = some o → pc.watches = some o
  sleeps : ∀ o, pc'.sleeps = some o → pc.sleeps = some o

theorem ReadPc.Weaker.refl (pc : ReadPc) : pc.Weaker pc := ⟨fun _ h => h, fun _ h => h, fun _ h => h, fun _ h => h⟩

theorem ReadPc.weaker_idle (pc : ReadPc) : ReadPc.idle.Weaker pc :=
  ⟨fun _ h => (by cases h), fun _ h => (by cases h), fun _ h => (by cases h), fun _ h => by cases h⟩

theorem ReadPc.weaker_looping {r : Nat} {o : ReadOptions} {pc : ReadPc} (h : pc.reader = some r) :
    (ReadPc.looping r o).Weaker pc :=
  ⟨fun _ h' => h' ▸ h, fun _ h' => (by cases h'), fun _ h' => (by cases h'), fun _ h' => by cases h'⟩

/-- Awake, and otherwise where it was, or before Pending. -/
theorem ReadPc.weaker_awake {pc' pc : ReadPc} (hr : pc'.reader = pc.reader) (ho : pc'.observes = pc.observes)
    (hw : pc'.watches = none ∨ pc'.watches = pc.watches) (hs : pc'.sleeps = none) : pc'.Weaker pc where
  reader _ h := hr ▸ h
  observes _ h := ho ▸ h
  watches _ h := by
    rcases hw with hw | hw
    · rw [hw] at h
      cases h
    · exact hw ▸ h
  sleeps _ h := by
    rw [hs] at h
    cases h

theorem ReadPc.wake_weaker (r : Nat) (pc : ReadPc) : (pc.wake r).Weaker pc := by
  cases pc with
  | asleep r' o observed =>
    by_cases e : r' = r
    · simp only [ReadPc.wake, if_pos e]
      exact ReadPc.weaker_awake rfl rfl (.inr rfl) rfl
    · simp only [ReadPc.wake, if_neg e]
      exact .refl _
  | _ => exact .refl _

theorem ReadPc.wake_sleeps {r : Nat} {pc : ReadPc} {r' observed : Nat}
    (h : (pc.wake r).sleeps = some (r', observed)) : r' ≠ r := by
  cases pc with
  | asleep q o observed' =>
    by_cases e : q = r
    · simp only [ReadPc.wake, if_pos e] at h
      cases h
    · simp only [ReadPc.wake, if_neg e] at h
      cases h
      exact e
  | _ => cases h

/-- The ReadPcs of a thread that calls are those of a reader that has been opened. -/
def Life.served : Life → Bool
  | .opened | .removed | .closing | .gone => true
  | _ => false

/-! ## What a move can do -/

variable (g : Geometry) (pollInterval : Int)

inductive Step (s : St) : St → Prop
  | stay : Step s s
  | commit (w : Nat) : s.publishers w = .idle →
      Step s (setPublisher { s with writeSeq := s.writeSeq + 1 } w .committed)
  | notify (w : Nat) : s.publishers w = .committed → Step s (setPublisher (addToWord s) w .notified)
  | wake (w : Nat) : s.publishers w = .notified → Step s (setPublisher (futexWake s) w .idle)
  | notifyOther : Step s (addToWord s)
  | wakeOther : Step s (futexWake s)
  | create (r depth : Nat) : (s.endpoints r).life = .absent →
      Step s (setEndpoint s r
        { cursor := s.writeSeq + 1, depth := depth, notifiedUpTo := s.writeSeq, life := .created })
  | refuse (r : Nat) : (s.endpoints r).life = .created → s.closed = true →
      Step s (setEndpoint s r { s.endpoints r with life := .refused })
  | addFirst (r : Nat) : (s.endpoints r).life = .created → s.closed = false → s.dispatcher = .absent →
      Step s { setEndpoint s r { s.endpoints r with life := .opened } with
        readers := s.readers ++ [r], dispatcher := .top, lastSeen := s.writeSeq }
  | add (r : Nat) : (s.endpoints r).life = .created → s.closed = false → s.dispatcher ≠ .absent →
      Step s { setEndpoint s r { s.endpoints r with life := .opened } with readers := s.readers ++ [r] }
  | remove (r : Nat) : (s.endpoints r).life = .opened →
      Step s { setEndpoint s r { s.endpoints r with life := .removed } with readers := s.readers.filter (· ≠ r) }
  | closeState (r : Nat) : (s.endpoints r).life = .removed →
      Step s (setEndpoint s r { (s.endpoints r).close with life := .closing })
  | closeNotify (r : Nat) : (s.endpoints r).life = .closing →
      Step s (notifyReads (setEndpoint s r { s.endpoints r with life := .gone }) r)
  | setCallback (r : Nat) (callback : Option Nat) : (s.endpoints r).closed = false →
      Step s (setEndpoint s r { s.endpoints r with callback := callback })
  | close : s.closed = false → Step s { s with closed := true, readers := [], closer := .closing s.readers }
  | closerState (r : Nat) (rest : List Nat) : s.closer = .closing (r :: rest) →
      Step s { setEndpoint s r (s.endpoints r).close with closer := .notifying r rest }
  | closerNotify (r : Nat) (rest : List Nat) : s.closer = .notifying r rest →
      Step s { notifyReads s r with closer := .closing rest }
  | read (t r : Nat) (o : ReadOptions) : (s.endpoints r).life = .opened → Step s (setRead s t (.entering r o))
  /-- The moves of a Read that commit it to nothing new: only the mutex and the cursor change. -/
  | quiet (t r cursor : Nat) (mutex : Option Nat) (pc : ReadPc) : pc.Weaker (s.reads t) →
      (s.endpoints r).cursor ≤ cursor →
      Step s (setRead (setEndpoint s r { s.endpoints r with cursor := cursor, mutex := mutex }) t pc)
  | observe (t r : Nat) (o : ReadOptions) (passes : Nat) : (s.reads t).reader = some r →
      Step s (setRead s t (.trying r o (s.endpoints r).generation passes))
  | settle (t r : Nat) (o : ReadOptions) (observed : Nat) : s.reads t = .checking r o observed →
      s.writeSeq < (s.endpoints r).cursor → Step s (setRead s t (.waiting r o observed))
  | block (t r : Nat) (o : ReadOptions) (observed : Nat) : s.reads t = .waiting r o observed →
      ready s r observed = false → Step s (release s t r (.asleep r o observed))
  /-- The dispatcher's moves that lead to its next Load, or out of its loop. -/
  | turn (pc : DispatcherPc) : pc = .top ∨ pc = .loading ∨ pc = .returned → s.dispatcher.fanout = none →
      s.dispatcher ≠ .copying → s.dispatcher ≠ .absent → Step s { s with dispatcher := pc }
  | load : s.dispatcher = .loading →
      Step s { s with dispatcher := .sequencing, observed := s.word, loadedAt := s.notifications }
  | seeSame : s.dispatcher = .sequencing → s.writeSeq = s.lastSeen → Step s { s with dispatcher := .rechecking }
  | seeNew : s.dispatcher = .sequencing → s.writeSeq ≠ s.lastSeen →
      Step s { s with lastSeen := s.writeSeq, dispatcher := .copying }
  | copy : s.dispatcher = .copying →
      Step s { s with dispatcher := .visiting ⟨s.lastSeen, s.readers, []⟩ s.readers }
  | finish (f : Fanout) : s.dispatcher = .visiting f [] →
      Step s { s with fanouts := s.fanouts ++ [f], dispatcher := .rechecking }
  | skip (f : Fanout) (r : Nat) (rest : List Nat) : s.dispatcher = .visiting f (r :: rest) →
      (s.endpoints r).closed = true ∨ f.newest ≤ (s.endpoints r).notifiedUpTo →
      Step s { s with dispatcher := .visiting (f.add (visitOf s r)) rest }
  | announce (f : Fanout) (r : Nat) (rest : List Nat) : s.dispatcher = .visiting f (r :: rest) →
      (s.endpoints r).closed = false → (s.endpoints r).notifiedUpTo < f.newest →
      Step s { setEndpoint s r ((s.endpoints r).announce f.newest) with dispatcher := .notifying f (visitOf s r) rest }
  | notifyAll (f : Fanout) (v : Visit) (rest : List Nat) : s.dispatcher = .notifying f v rest →
      Step s { notifyReads s v.reader with dispatcher := .calling f v (min (f.newest - v.notifiedUpTo) v.depth) rest }
  | call (f : Fanout) (v : Visit) (left : Nat) (rest : List Nat) : s.dispatcher = .calling f v (left + 1) rest →
      v.callback ≠ none → Step s { s with dispatcher := .calling f { v with calls := v.calls + 1 } left rest }
  | next (f : Fanout) (v : Visit) (left : Nat) (rest : List Nat) : s.dispatcher = .calling f v left rest →
      v.callback = none ∨ left = 0 → Step s { s with dispatcher := .visiting (f.add v) rest }
  | recheck : s.dispatcher = .rechecking → Step s { s with dispatcher := .waiting }
  | wait : s.dispatcher = .waiting → Step s { s with dispatcher := .futex }
  | sleep : s.dispatcher = .futex → s.word = s.observed → s.notifications - s.loadedAt < 2 ^ 32 →
      Step s { s with dispatcher := .asleep }

variable {g pollInterval} {s t : St}

theorem publisher_cases {a : Act} (h : publisherStep s a = some t) : Step s t := by
  cases a with
  | commit w => simp only [publisherStep] at h; split at h <;> cases h; exact .commit w ‹_›
  | notify w => simp only [publisherStep] at h; split at h <;> cases h; exact .notify w ‹_›
  | wake w => simp only [publisherStep] at h; split at h <;> cases h; exact .wake w ‹_›
  | notifyOther => cases h; exact .notifyOther
  | wakeOther => cases h; exact .wakeOther
  | _ => cases h

theorem add_cases {r : Nat} (h : endpointStep s (.add r) = some t) : Step s t := by
  simp only [endpointStep] at h
  split at h
  · split at h
    · cases h; exact .refuse r ‹_› ‹_›
    · have hopen : s.closed = false := by simpa using ‹¬s.closed = true›
      by_cases hd : s.dispatcher = .absent
      · simp only [if_pos hd, Option.some.injEq] at h
        subst h
        exact .addFirst r ‹_› hopen hd
      · simp only [if_neg hd, Option.some.injEq] at h
        subst h
        exact .add r ‹_› hopen hd
  · cases h

theorem endpoint_cases {a : Act} (h : endpointStep s a = some t) : Step s t := by
  cases a with
  | create r depth => simp only [endpointStep] at h; split at h <;> cases h; exact .create r depth ‹_›
  | add r => exact add_cases h
  | remove r => simp only [endpointStep] at h; split at h <;> cases h; exact .remove r ‹_›
  | closeState r =>
    simp only [endpointStep] at h
    split at h <;> cases h
    next hr => exact .closeState r hr.1
  | closeNotify r => simp only [endpointStep] at h; split at h <;> cases h; exact .closeNotify r ‹_›
  | setCallback r callback =>
    simp only [endpointStep] at h
    split at h
    · split at h
      · cases h; exact .stay
      · next hopen =>
        cases h
        simp only [not_or, Bool.not_eq_true] at hopen
        exact .setCallback r callback hopen.1
    · cases h
  | close =>
    simp only [endpointStep] at h
    split at h
    · cases h; exact .stay
    · cases h; exact .close (by simpa using ‹¬s.closed = true›)
  | closerState =>
    simp only [endpointStep] at h
    split at h
    · split at h <;> cases h
      exact .closerState _ _ ‹_›
    · cases h
  | closerNotify =>
    simp only [endpointStep] at h
    split at h <;> cases h
    exact .closerNotify _ _ ‹_›
  | _ => cases h

/-! A Read's moves: most of them are `quiet`. -/

theorem setEndpoint_self (s : St) (r : Nat) : setEndpoint s r (s.endpoints r) = s := by
  simp [setEndpoint]

theorem setEndpoint_again (s : St) (r : Nat) (e e' : Endpoint) :
    setEndpoint (setEndpoint s r e) r e' = setEndpoint s r e' := by
  simp [setEndpoint]

theorem quiet_setRead {u : Nat} (r : Nat) {pc : ReadPc} (h : pc.Weaker (s.reads u)) : Step s (setRead s u pc) := by
  have := Step.quiet u r (s.endpoints r).cursor (s.endpoints r).mutex pc h (Nat.le_refl _)
  rwa [show { s.endpoints r with cursor := (s.endpoints r).cursor, mutex := (s.endpoints r).mutex } = s.endpoints r
    from rfl, setEndpoint_self] at this

theorem quiet_release {u r : Nat} {pc : ReadPc} (h : pc.Weaker (s.reads u)) : Step s (release s u r pc) :=
  .quiet u r (s.endpoints r).cursor none pc h (Nat.le_refl _)

theorem quiet_acquire {u r : Nat} {pc : ReadPc} (h : pc.Weaker (s.reads u)) : Step s (acquire s u r pc) :=
  .quiet u r (s.endpoints r).cursor (some u) pc h (Nat.le_refl _)

theorem quiet_moved {u r cursor : Nat} {pc : ReadPc} (hc : (s.endpoints r).cursor ≤ cursor)
    (h : pc.Weaker (s.reads u)) : Step s (setRead (setEndpoint s r { s.endpoints r with cursor := cursor }) u pc) :=
  .quiet u r cursor (s.endpoints r).mutex pc h hc

theorem quiet_return {u r cursor : Nat} {pc : ReadPc} (hc : (s.endpoints r).cursor ≤ cursor)
    (h : pc.Weaker (s.reads u)) :
    Step s (release (setEndpoint s r { s.endpoints r with cursor := cursor }) u r pc) := by
  rw [release, setEndpoint_again]
  simpa [setEndpoint] using Step.quiet u r cursor none pc h hc

theorem pass_cases {u r observed passes : Nat} {o : ReadOptions} {found : Bool}
    (h : s.reads u = .trying r o observed passes) : Step s (pass g s u r o observed passes found) := by
  have hidle := ReadPc.weaker_idle (s.reads u)
  have hcheck : (ReadPc.checking r o observed).Weaker (s.reads u) := by
    rw [h]
    exact ReadPc.weaker_awake rfl rfl (.inl rfl) rfl
  have htry : (ReadPc.trying r o observed (passes - 1)).Weaker (s.reads u) := by
    rw [h]
    exact ReadPc.weaker_awake rfl rfl (.inl rfl) rfl
  have hclamp : (s.endpoints r).cursor ≤
      clampCursor (s.endpoints r).cursor s.writeSeq (effectiveDepth g (s.endpoints r).depth) + 1 :=
    Nat.le_succ_of_le (Nat.le_max_left _ _)
  simp only [pass, missed]
  split
  · split
    · exact quiet_setRead r hcheck
    · exact quiet_release hidle
  · split
    · exact quiet_return hclamp hidle
    · split
      · split
        · exact quiet_moved hclamp hcheck
        · exact quiet_return hclamp hidle
      · exact quiet_moved hclamp htry

theorem writeSeq_lt_cursor {r : Nat} (h : pendingCount g s r = 0) : s.writeSeq < (s.endpoints r).cursor := by
  rw [pendingCount] at h
  split at h
  · assumption
  · omega

theorem advance_cases {u : Nat} {found : Bool} (h : advanceStep g s u found = some t) : Step s t := by
  simp only [advanceStep] at h
  split at h
  · cases h
  · cases h
  · next r o hpc =>
    split at h <;> cases h
    exact quiet_acquire (ReadPc.weaker_looping (by rw [hpc]; rfl))
  · next r o hpc =>
    split at h <;> cases h
    · exact quiet_release (ReadPc.weaker_idle _)
    · exact .observe u r o _ (by rw [hpc]; rfl)
  · next r o observed passes hpc => cases h; exact pass_cases hpc
  · next r o observed hpc =>
    have hloop : (ReadPc.looping r o).Weaker (s.reads u) := ReadPc.weaker_looping (by rw [hpc]; rfl)
    split at h <;> cases h
    · exact quiet_setRead r hloop
    · next hnone => exact .settle u r o observed hpc (writeSeq_lt_cursor (g := g) (by simpa using hnone))
  · next r o observed hpc =>
    have hloop : (ReadPc.looping r o).Weaker (s.reads u) := ReadPc.weaker_looping (by rw [hpc]; rfl)
    split at h <;> cases h
    · exact quiet_setRead r hloop
    · next hnot => exact .block u r o observed hpc (by simpa using hnot)
  · next r o observed hpc =>
    split at h <;> cases h
    refine quiet_acquire ?_
    rw [hpc]
    exact ReadPc.weaker_awake rfl rfl (.inr rfl) rfl
  · next r o observed hpc =>
    have hloop : (ReadPc.looping r o).Weaker (s.reads u) := ReadPc.weaker_looping (by rw [hpc]; rfl)
    split at h
    · split at h <;> cases h
      · exact quiet_acquire hloop
      · exact quiet_setRead r (ReadPc.weaker_idle _)
    · cases h

theorem read_cases {a : Act} (h : readStep g s a = some t) : Step s t := by
  cases a with
  | read u r o =>
    simp only [readStep] at h
    split at h <;> cases h
    next hr => exact .read u r o hr.2
  | advance u found => exact advance_cases h
  | spurious u =>
    simp only [readStep] at h
    split at h <;> cases h
    next r o observed hpc =>
    refine quiet_setRead r ?_
    rw [hpc]
    exact ReadPc.weaker_awake rfl rfl (.inr rfl) rfl
  | expire u =>
    simp only [readStep] at h
    split at h
    · next r o observed hpc =>
      split at h <;> cases h
      refine quiet_setRead r ?_
      rw [hpc]
      exact ReadPc.weaker_awake rfl rfl (.inr rfl) rfl
    · cases h
  | _ => cases h

theorem visit_cases {f : Fanout} {r : Nat} {rest : List Nat} (hpc : s.dispatcher = .visiting f (r :: rest))
    (h : visit s f r rest = some t) : Step s t := by
  simp only [visit] at h
  split at h
  · cases h
  · split at h
    · next hskip => cases h; exact .skip f r rest hpc hskip
    · next hskip =>
      cases h
      simp only [not_or, Bool.not_eq_true, Nat.not_le] at hskip
      exact .announce f r rest hpc hskip.1 hskip.2

theorem turn_cases {pc : DispatcherPc} (hpc : pc = .top ∨ pc = .loading ∨ pc = .returned) {old : DispatcherPc}
    (h : s.dispatcher = old) (hf : old.fanout = none) (hc : old ≠ .copying) (ha : old ≠ .absent) :
    Step s { s with dispatcher := pc } := by
  subst h
  exact .turn pc hpc hf hc ha

theorem dispatcher_cases (hok : fewNotifications s .dispatch) (h : dispatcherStep pollInterval s = some t) :
    Step s t := by
  simp only [dispatcherStep] at h
  split at h
  · cases h
  · cases h
  · cases h
  · next hpc =>
    split at h <;> cases h
    · exact turn_cases (.inr (.inr rfl)) hpc rfl (by simp) (by simp)
    · exact turn_cases (.inr (.inl rfl)) hpc rfl (by simp) (by simp)
  · next hpc => cases h; exact .load hpc
  · next hpc =>
    split at h <;> cases h
    · next hne => exact .seeNew hpc hne
    · next heq => exact .seeSame hpc (by simpa using heq)
  · next hpc => cases h; exact .copy hpc
  · next f hpc => cases h; exact .finish f hpc
  · next f r rest hpc => exact visit_cases hpc h
  · next f v rest hpc => cases h; exact .notifyAll f v rest hpc
  · next f v left rest hpc =>
    split at h <;> cases h
    · next hc =>
      obtain ⟨left, rfl⟩ : ∃ n, left = n + 1 := ⟨left - 1, by omega⟩
      exact .call f v left rest hpc hc.1
    · next hc =>
      refine .next f v left rest hpc ?_
      by_cases e : v.callback = none
      · exact .inl e
      · exact .inr (by simpa [e] using hc)
  · next hpc =>
    split at h <;> cases h
    · exact turn_cases (.inr (.inr rfl)) hpc rfl (by simp) (by simp)
    · exact .recheck hpc
  · next hpc =>
    split at h <;> cases h
    · exact turn_cases (.inl rfl) hpc rfl (by simp) (by simp)
    · exact .wait hpc
  · next hpc =>
    split at h <;> cases h
    · exact turn_cases (.inl rfl) hpc rfl (by simp) (by simp)
    · next heq => exact .sleep hpc (by simpa using heq) (hok hpc)

theorem step_cases {a : Act} (hok : fewNotifications s a) (h : step g pollInterval s a = some t) : Step s t := by
  cases a with
  | commit w => exact publisher_cases (a := .commit w) h
  | notify w => exact publisher_cases (a := .notify w) h
  | wake w => exact publisher_cases (a := .wake w) h
  | notifyOther => exact publisher_cases (a := .notifyOther) h
  | wakeOther => exact publisher_cases (a := .wakeOther) h
  | read u r o => exact read_cases (g := g) (a := .read u r o) h
  | advance u found => exact read_cases (a := .advance u found) h
  | spurious u => exact read_cases (g := g) (a := .spurious u) h
  | expire u => exact read_cases (g := g) (a := .expire u) h
  | dispatch => exact dispatcher_cases hok h
  | dispatcherWakes =>
    simp only [step] at h
    split at h <;> cases h
    next hpc => exact turn_cases (.inl rfl) hpc rfl (by simp) (by simp)
  | _ =>
    simp only [step] at h
    exact endpoint_cases h

end PuppetMaster.Shm.Notify
