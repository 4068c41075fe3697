/-
  PuppetMaster.Shm.NotifyProofs — the two invariants under the notification of readers.

  `Caught`: between the dispatcher's load of the sequence and its sleep, a commit it has not
  seen is one whose publisher has still to notify; the word it waits on is the one it loaded,
  and with fewer than 2^32 additions in between an equal word is an unchanged one.

  `Registry`: each open reader is in `readers_`, or with Close; what was announced to it is
  announced once.
-/

import Mathlib.Data.List.Nodup
import PuppetMaster.Shm.NotifySteps

namespace PuppetMaster.Shm.Notify

open PuppetMaster.Lib PuppetMaster.Shm

variable {s t : St}

/-! ## Publishers and the word -/

/-- What the dispatcher knows of the publishers. -/
structure Caught (s : St) : Prop where
  counter : s.word = s.observed + UInt32.ofNat (s.notifications - s.loadedAt)
  loaded : s.loadedAt ≤ s.notifications
  seen : s.lastSeen ≤ s.writeSeq
  /-- A commit after the sequence was loaded is still to be notified, or has changed the word. -/
  saw : s.dispatcher.saw = true → s.notifications = s.loadedAt →
    s.writeSeq = s.lastSeen ∨ ∃ w, s.publishers w = .committed
  asleep : s.dispatcher = .asleep → s.writeSeq = s.lastSeen ∨ ∃ w, s.publishers w ≠ .idle

theorem Caught.start (writeSeq : Nat) (word : UInt32) : Caught (start writeSeq word) where
  counter := by simp [Notify.start]
  loaded := Nat.le_refl _
  seen := Nat.zero_le _
  saw h := by cases h
  asleep h := by cases h

theorem Caught.frame (h : Caught s) (hword : t.word = s.word) (hobserved : t.observed = s.observed)
    (hnotifications : t.notifications = s.notifications) (hloaded : t.loadedAt = s.loadedAt)
    (hseen : t.lastSeen = s.lastSeen) (hseq : t.writeSeq = s.writeSeq) (hpublishers : t.publishers = s.publishers)
    (hsaw : t.dispatcher.saw = true → s.dispatcher.saw = true)
    (hasleep : t.dispatcher = .asleep → s.dispatcher = .asleep) : Caught t where
  counter := by rw [hword, hobserved, hnotifications, hloaded]; exact h.counter
  loaded := by rw [hnotifications, hloaded]; exact h.loaded
  seen := by rw [hseen, hseq]; exact h.seen
  saw hs hn := by
    rw [hnotifications, hloaded] at hn
    rw [hseq, hseen, hpublishers]
    exact h.saw (hsaw hs) hn
  asleep ha := by
    rw [hseq, hseen, hpublishers]
    exact h.asleep (hasleep ha)

/-- With fewer than 2^32 additions in between, an unchanged word was not added to. -/
theorem Caught.unchanged (h : Caught s) (hword : s.word = s.observed)
    (hfew : s.notifications - s.loadedAt < 2 ^ 32) : s.notifications = s.loadedAt := by
  have hc := h.counter
  rw [hword] at hc
  have hzero : UInt32.ofNat (s.notifications - s.loadedAt) = 0 := by simpa using hc
  have hn : (UInt32.ofNat (s.notifications - s.loadedAt)).toNat = s.notifications - s.loadedAt := by
    simp only [UInt32.toNat_ofNat']
    omega
  rw [hzero] at hn
  have := h.loaded
  have h0 : (0 : UInt32).toNat = 0 := rfl
  omega

theorem Caught.addToWord (h : Caught s) {w : Nat → PublisherPc} (hpublishers : ∀ v, s.publishers v ≠ .idle → w v ≠ .idle) :
    Caught { addToWord s with publishers := w } where
  counter := by
    have h1 := h.counter
    have h2 := h.loaded
    simp only [Notify.addToWord]
    rw [show s.notifications + 1 - s.loadedAt = s.notifications - s.loadedAt + 1 by omega, UInt32.ofNat_add, h1,
      UInt32.add_assoc]
    rfl
  loaded := Nat.le_succ_of_le h.loaded
  seen := h.seen
  saw _ hn := by
    have := h.loaded
    simp only [Notify.addToWord] at hn
    omega
  asleep ha := (h.asleep ha).imp id fun ⟨v, hv⟩ => ⟨v, hpublishers v hv⟩

theorem futexWake_awake (s : St) : (futexWake s).dispatcher ≠ .asleep := by
  simp only [futexWake]
  split
  · simp
  · assumption

theorem futexWake_saw (h : (futexWake s).dispatcher.saw = true) : s.dispatcher.saw = true := by
  simp only [futexWake] at h
  split at h
  · cases h
  · exact h

theorem Caught.futexWake (h : Caught s) : Caught (futexWake s) :=
  h.frame rfl rfl rfl rfl rfl rfl rfl futexWake_saw fun ha => absurd ha (futexWake_awake s)

/-- A publisher that has notified wakes the dispatcher, and has nothing left to say. -/
theorem Caught.wake (h : Caught s) {w : Nat} (hw : s.publishers w = .notified) :
    Caught (setPublisher (Notify.futexWake s) w .idle) where
  counter := h.futexWake.counter
  loaded := h.futexWake.loaded
  seen := h.futexWake.seen
  saw hs hn := by
    refine (h.futexWake.saw hs hn).imp id fun ⟨v, hv⟩ => ⟨v, ?_⟩
    have hne : v ≠ w := by
      rintro rfl
      rw [Notify.futexWake, hw] at hv
      cases hv
    simpa [setPublisher, hne] using hv
  asleep ha := absurd ha (futexWake_awake s)

theorem Caught.step (h : Caught s) (hst : Step s t) : Caught t := by
  cases hst with
  | commit w hw =>
    refine ⟨h.counter, h.loaded, Nat.le_succ_of_le h.seen, fun _ _ => .inr ⟨w, ?_⟩, fun _ => .inr ⟨w, ?_⟩⟩
    · simp [setPublisher]
    · simp [setPublisher]
  | notify w hw =>
    refine h.addToWord fun v hv => ?_
    by_cases e : v = w
    · subst e; simp
    · simpa [Notify.addToWord, e] using hv
  | wake w hw => exact h.wake hw
  | notifyOther => exact h.addToWord fun _ hv => hv
  | wakeOther => exact h.futexWake
  | addFirst r =>
    refine ⟨h.counter, h.loaded, Nat.le_refl _, fun hs => (by cases hs), fun ha => by cases ha⟩
  | turn pc hpc =>
    refine h.frame rfl rfl rfl rfl rfl rfl rfl (fun hs => ?_) fun ha => ?_
    · rcases hpc with rfl | rfl | rfl <;> cases hs
    · rcases hpc with rfl | rfl | rfl <;> cases ha
  | load hpc =>
    refine ⟨by simp, Nat.le_refl _, h.seen, fun hs => (by cases hs), fun ha => by cases ha⟩
  | seeSame hpc heq => exact ⟨h.counter, h.loaded, h.seen, fun _ _ => .inl heq, fun ha => by cases ha⟩
  | seeNew hpc hne => exact ⟨h.counter, h.loaded, Nat.le_refl _, fun _ _ => .inl rfl, fun ha => by cases ha⟩
  | sleep hpc hword hfew =>
    refine ⟨h.counter, h.loaded, h.seen, fun hs => (by cases hs), fun _ => ?_⟩
    have hsaw := h.saw (by rw [hpc]; rfl) (h.unchanged hword hfew)
    exact hsaw.imp id fun ⟨w, hw⟩ => ⟨w, by rw [hw]; simp⟩
  | copy hpc | finish f hpc | skip f r rest hpc | announce f r rest hpc | notifyAll f v rest hpc | call f v left rest hpc
  | next f v left rest hpc | recheck hpc | wait hpc =>
    exact h.frame rfl rfl rfl rfl rfl rfl rfl (fun _ => by rw [hpc]; rfl) fun ha => by cases ha
  | _ => exact h.frame rfl rfl rfl rfl rfl rfl rfl id id

/-! ## The readers of the topic -/

/-- What was announced to a reader. -/
structure Told (writeSeq : Nat) (e : Endpoint) : Prop where
  notified : e.notifiedUpTo ≤ writeSeq
  announced : ∀ n ∈ e.announced, n ≤ e.notifiedUpTo
  once : e.announced.Nodup
  silent : e.closed = true → e.callback = none

/-- Who has reader `r`: the topic, or whoever closes it. -/
structure Placed (s : St) (r : Nat) (e : Endpoint) : Prop where
  closed : e.life = .closing ∨ e.life = .gone → e.closed = true
  started : e.life.served = true → s.dispatcher ≠ .absent
  listed : e.life = .opened → s.closed = false → r ∈ s.readers
  taken : e.life = .opened → s.closed = true → e.closed = true ∨ r ∈ s.closer.owed

structure Registry (s : St) : Prop where
  told : ∀ r, Told s.writeSeq (s.endpoints r)
  placed : ∀ r, Placed s r (s.endpoints r)
  opened : ∀ r ∈ s.readers, (s.endpoints r).life = .opened
  nodup : s.readers.Nodup
  owed : ∀ r ∈ s.closer.owed, (s.endpoints r).life.served = true
  idle : s.closed = false → s.closer = .idle
  closer : ∀ r rest, s.closer = .notifying r rest → (s.endpoints r).closed = true
  newest : ∀ f, s.dispatcher.fanout = some f → f.newest = s.lastSeen

theorem Told.fresh (n : Nat) {e : Endpoint} (hn : e.notifiedUpTo ≤ n) (ha : e.announced = []) (hc : e.closed = false) :
    Told n e := by
  refine ⟨hn, ?_, ?_, ?_⟩
  · rw [ha]; intro k hk; cases hk
  · rw [ha]; exact List.nodup_nil
  · rw [hc]; intro h; cases h

theorem Placed.unserved {r : Nat} {e : Endpoint} (h : e.life.served = false) : Placed s r e := by
  refine ⟨fun h' => ?_, fun h' => ?_, fun h' => ?_, fun h' => ?_⟩
  · rcases h' with h' | h' <;> rw [h'] at h <;> cases h
  · rw [h] at h'; cases h'
  · rw [h'] at h; cases h
  · rw [h'] at h; cases h

theorem Registry.start (writeSeq : Nat) (word : UInt32) : Registry (Notify.start writeSeq word) where
  told r := .fresh _ (Nat.zero_le _) rfl rfl
  placed r := .unserved rfl
  opened r h := by cases h
  nodup := List.nodup_nil
  owed r h := by cases h
  idle _ := rfl
  closer r rest h := by cases h
  newest f h := by cases h

theorem Told.mono {m n : Nat} {e : Endpoint} (h : Told m e) (hmn : m ≤ n) : Told n e :=
  ⟨Nat.le_trans h.notified hmn, h.announced, h.once, h.silent⟩

theorem Told.congr {n : Nat} {e e' : Endpoint} (h : Told n e) (hnotified : e'.notifiedUpTo = e.notifiedUpTo)
    (hannounced : e'.announced = e.announced) (hclosed : e'.closed = e.closed) (hcallback : e'.callback = e.callback) :
    Told n e' where
  notified := hnotified ▸ h.notified
  announced k hk := hnotified ▸ h.announced k (hannounced ▸ hk)
  once := hannounced ▸ h.once
  silent hc := by
    rw [hcallback]
    exact h.silent (hclosed ▸ hc)

/-- What an announcement adds is newer than all that was announced. -/
theorem Told.announce {n newest : Nat} {e : Endpoint} (h : Told n e) (hopen : e.closed = false)
    (hlt : e.notifiedUpTo < newest) (hle : newest ≤ n) : Told n (e.announce newest) where
  notified := hle
  announced k hk := by
    rcases List.mem_append.mp hk with hk | hk
    · exact Nat.le_trans (h.announced k hk) (Nat.le_of_lt hlt)
    · have := List.mem_range'_1.mp hk
      simp only [Endpoint.announce]
      omega
  once := by
    refine List.nodup_append.mpr ⟨h.once, List.nodup_range', fun a ha b hb => ?_⟩
    have h1 := h.announced a ha
    have h2 := List.mem_range'_1.mp hb
    omega
  silent hc := by
    simp only [Endpoint.announce] at hc
    rw [hopen] at hc
    cases hc

/-- The moves that leave the readers where they are. -/
theorem Registry.frame (h : Registry s) (htold : ∀ r, Told t.writeSeq (t.endpoints r))
    (hlife : ∀ r, (t.endpoints r).life = (s.endpoints r).life)
    (hclosed : ∀ r, (t.endpoints r).closed = (s.endpoints r).closed) (hreaders : t.readers = s.readers)
    (hshut : t.closed = s.closed) (hcloser : t.closer = s.closer)
    (habsent : t.dispatcher = .absent → s.dispatcher = .absent)
    (hnewest : ∀ f, t.dispatcher.fanout = some f → f.newest = t.lastSeen) : Registry t where
  told := htold
  placed r := by
    have hp := h.placed r
    refine ⟨?_, ?_, ?_, ?_⟩
    · rw [hlife, hclosed]; exact hp.closed
    · rw [hlife]; exact fun hs ha => hp.started hs (habsent ha)
    · rw [hlife, hshut, hreaders]; exact hp.listed
    · rw [hlife, hshut, hclosed, hcloser]; exact hp.taken
  opened r hr := by
    rw [hlife]
    exact h.opened r (hreaders ▸ hr)
  nodup := hreaders ▸ h.nodup
  owed r hr := by
    rw [hlife]
    exact h.owed r (hcloser ▸ hr)
  idle hc := by
    rw [hcloser]
    exact h.idle (hshut ▸ hc)
  closer r rest hc := by
    rw [hclosed]
    exact h.closer r rest (hcloser ▸ hc)
  newest := hnewest

/-- The same when no endpoint changes. -/
theorem Registry.same (h : Registry s) (hseq : s.writeSeq ≤ t.writeSeq) (hendpoints : t.endpoints = s.endpoints)
    (hreaders : t.readers = s.readers) (hshut : t.closed = s.closed) (hcloser : t.closer = s.closer)
    (habsent : t.dispatcher = .absent → s.dispatcher = .absent)
    (hnewest : ∀ f, t.dispatcher.fanout = some f → f.newest = t.lastSeen) : Registry t :=
  h.frame (fun r => hendpoints ▸ (h.told r).mono hseq) (fun _ => hendpoints ▸ rfl) (fun _ => hendpoints ▸ rfl) hreaders
    hshut hcloser habsent hnewest

/-- The same when one endpoint changes, but not where it is. -/
theorem Registry.touch (h : Registry s) {r : Nat} {e : Endpoint} (hendpoints : t.endpoints = Function.update s.endpoints r e)
    (hseq : s.writeSeq ≤ t.writeSeq) (htold : Told t.writeSeq e) (hlife : e.life = (s.endpoints r).life)
    (hclosed : e.closed = (s.endpoints r).closed) (hreaders : t.readers = s.readers) (hshut : t.closed = s.closed)
    (hcloser : t.closer = s.closer) (habsent : t.dispatcher = .absent → s.dispatcher = .absent)
    (hnewest : ∀ f, t.dispatcher.fanout = some f → f.newest = t.lastSeen) : Registry t := by
  refine h.frame ?_ ?_ ?_ hreaders hshut hcloser habsent hnewest
  · rw [hendpoints, Function.forall_update_iff s.endpoints fun _ e => Told t.writeSeq e]
    exact ⟨htold, fun q _ => (h.told q).mono hseq⟩
  · rw [hendpoints, Function.forall_update_iff s.endpoints fun q e => e.life = (s.endpoints q).life]
    exact ⟨hlife, fun q _ => rfl⟩
  · rw [hendpoints, Function.forall_update_iff s.endpoints fun q e => e.closed = (s.endpoints q).closed]
    exact ⟨hclosed, fun q _ => rfl⟩

/-- One endpoint moves on. -/
theorem Registry.move (h : Registry s) {r : Nat} {e : Endpoint} (hendpoints : t.endpoints = Function.update s.endpoints r e)
    (hseq : t.writeSeq = s.writeSeq) (htold : Told s.writeSeq e) (hplaced : Placed t r e)
    (hothers : ∀ q, q ≠ r → Placed s q (s.endpoints q) → Placed t q (s.endpoints q))
    (hserved : (s.endpoints r).life.served = true → e.life.served = true)
    (hopened : ∀ q ∈ t.readers, q ∈ s.readers ∧ q ≠ r ∨ q = r ∧ e.life = .opened) (hnodup : t.readers.Nodup)
    (howed : ∀ q ∈ t.closer.owed, q ∈ s.closer.owed) (hidle : t.closed = false → t.closer = .idle)
    (hcloser : ∀ q rest, t.closer = .notifying q rest → q ≠ r ∧ s.closer = .notifying q rest ∨ q = r ∧ e.closed = true)
    (hnewest : ∀ f, t.dispatcher.fanout = some f → f.newest = t.lastSeen) : Registry t where
  told := by
    rw [hendpoints, hseq, Function.forall_update_iff s.endpoints fun _ e => Told s.writeSeq e]
    exact ⟨htold, fun q _ => h.told q⟩
  placed := by
    rw [hendpoints, Function.forall_update_iff s.endpoints fun q e => Placed t q e]
    exact ⟨hplaced, fun q hq => hothers q hq (h.placed q)⟩
  opened q hq := by
    rcases hopened q hq with ⟨hq, hne⟩ | ⟨rfl, he⟩
    · rw [hendpoints, Function.update_of_ne hne]
      exact h.opened q hq
    · rw [hendpoints, Function.update_self]
      exact he
  nodup := hnodup
  owed q hq := by
    have hs := h.owed q (howed q hq)
    by_cases e' : q = r
    · subst e'
      rw [hendpoints, Function.update_self]
      exact hserved hs
    · rw [hendpoints, Function.update_of_ne e']
      exact hs
  idle := hidle
  closer q rest hc := by
    rcases hcloser q rest hc with ⟨hne, hc⟩ | ⟨rfl, he⟩
    · rw [hendpoints, Function.update_of_ne hne]
      exact h.closer q rest hc
    · rw [hendpoints, Function.update_self]
      exact he
  newest := hnewest

/-- The same when the topic keeps its readers. -/
theorem Registry.moveAlone (h : Registry s) {r : Nat} {e : Endpoint} (hendpoints : t.endpoints = Function.update s.endpoints r e)
    (hseq : t.writeSeq = s.writeSeq) (hreaders : t.readers = s.readers) (hshut : t.closed = s.closed)
    (hcloser : t.closer = s.closer) (hdispatcher : t.dispatcher = s.dispatcher) (hseen : t.lastSeen = s.lastSeen)
    (hr : (s.endpoints r).life ≠ .opened) (htold : Told s.writeSeq e) (hplaced : Placed s r e)
    (hserved : (s.endpoints r).life.served = true → e.life.served = true)
    (hclosed : (s.endpoints r).life.served = true → (s.endpoints r).closed = true → e.closed = true) : Registry t := by
  have hcongr : ∀ q e, Placed s q e → Placed t q e := fun q e hp =>
    ⟨hp.closed, hdispatcher ▸ hp.started, hshut ▸ hreaders ▸ hp.listed, hshut ▸ hcloser ▸ hp.taken⟩
  refine h.move hendpoints hseq htold (hcongr r e hplaced) (fun q _ hp => hcongr q _ hp) hserved ?_ (hreaders ▸ h.nodup)
    (fun q hq => hcloser ▸ hq) (hshut ▸ hcloser ▸ h.idle) ?_ (hdispatcher ▸ hseen ▸ h.newest)
  · intro q hq
    rw [hreaders] at hq
    refine .inl ⟨hq, ?_⟩
    rintro rfl
    exact hr (h.opened q hq)
  · intro q rest hc
    rw [hcloser] at hc
    by_cases e' : q = r
    · subst e'
      exact .inr ⟨rfl, hclosed (h.owed q (by rw [hc]; exact List.mem_cons_self)) (h.closer q rest hc)⟩
    · exact .inl ⟨e', hc⟩

theorem Told.close {n : Nat} {e : Endpoint} (h : Told n e) : Told n e.close :=
  ⟨h.notified, h.announced, h.once, fun _ => rfl⟩

theorem Registry.add (h : Registry s) {r : Nat} (hr : (s.endpoints r).life = .created) (hshut : s.closed = false)
    {pc : DispatcherPc} {lastSeen : Nat} (hpc : pc ≠ .absent)
    (hnewest : ∀ f, pc.fanout = some f → f.newest = lastSeen) :
    Registry { setEndpoint s r { s.endpoints r with life := .opened } with
      readers := s.readers ++ [r], dispatcher := pc, lastSeen := lastSeen } := by
  have hnot : r ∉ s.readers := fun hin => by rw [h.opened r hin] at hr; cases hr
  refine h.move rfl rfl ((h.told r).congr rfl rfl rfl rfl) ?_ ?_ (fun _ => rfl) ?_ ?_
    (fun q hq => hq) h.idle ?_ hnewest
  · refine ⟨fun h' => ?_, fun _ => hpc, fun _ _ => List.mem_append_right _ (List.mem_singleton_self r), fun _ hc => ?_⟩
    · rcases h' with h' | h' <;> cases h'
    · simp [setEndpoint, hshut] at hc
  · intro q _ hp
    refine ⟨hp.closed, fun _ => hpc, fun ho hc => List.mem_append_left _ (hp.listed ho hc), fun _ hc => ?_⟩
    simp [setEndpoint, hshut] at hc
  · intro q hq
    rcases List.mem_append.mp hq with hq | hq
    · exact .inl ⟨hq, fun e => hnot (e ▸ hq)⟩
    · exact .inr ⟨List.mem_singleton.mp hq, rfl⟩
  · refine List.nodup_append.mpr ⟨h.nodup, List.nodup_singleton r, fun a ha b hb => ?_⟩
    rw [List.mem_singleton.mp hb]
    rintro rfl
    exact hnot ha
  · intro q rest hc
    refine .inl ⟨?_, hc⟩
    rintro rfl
    have hs := h.owed q (by simp only [setEndpoint] at hc; rw [hc]; exact List.mem_cons_self)
    rw [hr] at hs
    cases hs

theorem Registry.remove (h : Registry s) {r : Nat} (hr : (s.endpoints r).life = .opened) :
    Registry { setEndpoint s r { s.endpoints r with life := .removed } with readers := s.readers.filter (· ≠ r) } := by
  refine h.move rfl rfl ((h.told r).congr rfl rfl rfl rfl) ?_ ?_ (fun _ => rfl) ?_
    (h.nodup.filter _) (fun q hq => hq) h.idle ?_ h.newest
  · refine ⟨fun h' => ?_, fun _ => ?_, fun h' => (by cases h'), fun h' => by cases h'⟩
    · rcases h' with h' | h' <;> cases h'
    · exact (h.placed r).started (by rw [hr]; rfl)
  · intro q hne hp
    refine ⟨hp.closed, hp.started, fun ho hc => ?_, hp.taken⟩
    exact List.mem_filter.mpr ⟨hp.listed ho hc, by simpa using hne⟩
  · intro q hq
    have hq := List.mem_filter.mp hq
    exact .inl ⟨hq.1, by simpa using hq.2⟩
  · intro q rest hc
    by_cases e : q = r
    · subst e
      exact .inr ⟨rfl, h.closer q rest hc⟩
    · exact .inl ⟨e, hc⟩

/-- Close takes the readers. -/
theorem Registry.close (h : Registry s) (hshut : s.closed = false) :
    Registry { s with closed := true, readers := [], closer := .closing s.readers } where
  told := h.told
  placed r := by
    have hp := h.placed r
    exact ⟨hp.closed, hp.started, fun _ hc => (by cases hc), fun ho _ => .inr (hp.listed ho hshut)⟩
  opened r hr := by cases hr
  nodup := List.nodup_nil
  owed r hr := by
    have := h.opened r hr
    simp only [this, Life.served]
  idle hc := by cases hc
  closer r rest hc := by cases hc
  newest := h.newest

theorem Registry.closerState (h : Registry s) {r : Nat} {rest : List Nat} (hc : s.closer = .closing (r :: rest)) :
    Registry { setEndpoint s r (s.endpoints r).close with closer := .notifying r rest } := by
  have howed : (ClosePc.notifying r rest).owed = s.closer.owed := by rw [hc]; rfl
  have hidle : s.closed = false → ClosePc.notifying r rest = .idle := fun hs => by
    rw [h.idle hs] at hc
    cases hc
  have hp := h.placed r
  refine h.move rfl rfl (h.told r).close ?_ ?_ id ?_ h.nodup (fun q hq => by rwa [howed] at hq) hidle ?_ h.newest
  · refine ⟨fun _ => rfl, hp.started, hp.listed, fun _ _ => .inl rfl⟩
  · intro q _ hq
    exact ⟨hq.closed, hq.started, hq.listed, fun ho hs => by rw [howed]; exact hq.taken ho hs⟩
  · intro q hq
    by_cases e : q = r
    · subst e
      exact .inr ⟨rfl, h.opened q hq⟩
    · exact .inl ⟨hq, e⟩
  · intro q rest' hq
    cases hq
    exact .inr ⟨rfl, rfl⟩

theorem Registry.closerNotify (h : Registry s) {r : Nat} {rest : List Nat} (hc : s.closer = .notifying r rest) :
    Registry { notifyReads s r with closer := .closing rest } where
  told := h.told
  placed q := by
    have hp := h.placed q
    refine ⟨hp.closed, hp.started, hp.listed, fun ho hs => ?_⟩
    rcases hp.taken ho hs with hcl | hin
    · exact .inl hcl
    · rw [hc] at hin
      rcases List.mem_cons.mp hin with rfl | hin
      · exact .inl (h.closer q rest hc)
      · exact .inr hin
  opened := h.opened
  nodup := h.nodup
  owed q hq := h.owed q (by rw [hc]; exact List.mem_cons_of_mem r hq)
  idle hs := by
    rw [h.idle hs] at hc
    cases hc
  closer q rest' hq := by cases hq
  newest := h.newest

theorem futexWake_absent (h : (futexWake s).dispatcher = .absent) : s.dispatcher = .absent := by
  simp only [futexWake] at h
  split at h
  · cases h
  · exact h

theorem Registry.futexWake (h : Registry s) {w : Nat → PublisherPc} :
    Registry { futexWake s with publishers := w } := by
  refine h.same (Nat.le_refl _) rfl rfl rfl rfl futexWake_absent fun f hf => h.newest f ?_
  simp only [Notify.futexWake] at hf
  split at hf
  · cases hf
  · exact hf

theorem Registry.step (h : Registry s) (hcaught : Caught s) (hst : Step s t) : Registry t := by
  cases hst with
  | stay => exact h
  | commit w => exact h.same (Nat.le_succ _) rfl rfl rfl rfl id h.newest
  | notify | notifyOther | read | observe | settle => exact h.same (Nat.le_refl _) rfl rfl rfl rfl id h.newest
  | wake w => exact h.futexWake
  | wakeOther => exact h.futexWake
  | create r depth hr =>
    refine h.moveAlone rfl rfl rfl rfl rfl rfl rfl (by rw [hr]; simp) (.fresh _ (Nat.le_refl _) rfl rfl) (.unserved rfl) ?_ ?_
    · intro hs; rw [hr] at hs; cases hs
    · intro hs; rw [hr] at hs; cases hs
  | refuse r hr =>
    refine h.moveAlone rfl rfl rfl rfl rfl rfl rfl (by rw [hr]; simp) ((h.told r).congr rfl rfl rfl rfl)
      (.unserved rfl) ?_ fun _ hc => hc
    intro hs; rw [hr] at hs; cases hs
  | addFirst r hr hshut hd => exact h.add hr hshut (by simp) fun f hf => by cases hf
  | add r hr hshut hd => exact h.add hr hshut hd h.newest
  | remove r hr => exact h.remove hr
  | closeState r hr =>
    refine h.moveAlone rfl rfl rfl rfl rfl rfl rfl (by rw [hr]; simp) ?_ ?_ (fun _ => rfl) fun _ _ => rfl
    · exact (h.told r).close.congr rfl rfl rfl rfl
    · exact ⟨fun _ => rfl, fun _ => (h.placed r).started (by rw [hr]; rfl), fun ho => (by cases ho), fun ho => by cases ho⟩
  | closeNotify r hr =>
    have hclosed := (h.placed r).closed (.inl hr)
    refine h.moveAlone rfl rfl rfl rfl rfl rfl rfl (by rw [hr]; simp) ((h.told r).congr rfl rfl rfl rfl) ?_
      (fun _ => rfl) fun _ hc => hc
    exact ⟨fun _ => hclosed, fun _ => (h.placed r).started (by rw [hr]; rfl), fun ho => (by cases ho),
      fun ho => by cases ho⟩
  | setCallback r callback hopen =>
    refine h.touch (r := r) rfl (Nat.le_refl _) ?_ rfl rfl rfl rfl rfl id h.newest
    refine ⟨(h.told r).notified, (h.told r).announced, (h.told r).once, fun hc => ?_⟩
    rw [hopen] at hc
    cases hc
  | close hshut => exact h.close hshut
  | closerState r rest hc => exact h.closerState hc
  | closerNotify r rest hc => exact h.closerNotify hc
  | quiet u r | block u r =>
    exact h.touch (r := r) rfl (Nat.le_refl _) ((h.told r).congr rfl rfl rfl rfl) rfl rfl rfl rfl rfl id h.newest
  | turn pc hpc hf _ ha =>
    refine h.same (Nat.le_refl _) rfl rfl rfl rfl (fun h' => ?_) fun f hf => ?_
    · rcases hpc with rfl | rfl | rfl <;> cases h'
    · rcases hpc with rfl | rfl | rfl <;> cases hf
  | load | seeSame | seeNew | finish | recheck | wait | sleep =>
    exact h.same (Nat.le_refl _) rfl rfl rfl rfl (fun h' => by cases h') fun f hf => by cases hf
  | copy hpc => exact h.same (Nat.le_refl _) rfl rfl rfl rfl (fun h' => by cases h') fun f hf => by cases hf; rfl
  | skip f r rest hpc | notifyAll f v rest hpc | call f v left rest hpc | next f v left rest hpc =>
    refine h.same (Nat.le_refl _) rfl rfl rfl rfl (fun h' => by cases h') fun f' hf => ?_
    cases hf
    exact h.newest f (by rw [hpc]; rfl)
  | announce f r rest hpc hopen hlt =>
    have hnewest := h.newest f (by rw [hpc]; rfl)
    refine h.touch (r := r) rfl (Nat.le_refl _) ?_ rfl rfl rfl rfl rfl (fun h' => by cases h') fun f' hf => ?_
    · exact (h.told r).announce hopen hlt (hnewest ▸ hcaught.seen)
    · cases hf
      exact hnewest

end PuppetMaster.Shm.Notify
