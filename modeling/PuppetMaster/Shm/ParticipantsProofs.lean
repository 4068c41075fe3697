/-
  PuppetMaster.Shm.ParticipantsProofs — who owns a participant entry (see
  `PuppetMaster.Shm.Participants`).
-/

import PuppetMaster.Shm.Participants

namespace PuppetMaster.Shm.Participants

open PuppetMaster.Lib

/-! ## Tickets -/

/-- The claim a thread is completing. -/
def claimer : Pc → Option (Nat × Nat)
  | .storingPid i n _ | .storingStartTime i n _ | .activating i n _ => some (i, n)
  | _ => none

/-- The claim a thread was given and whose pid it has not cleared. -/
def keeper : Pc → Option (Nat × Nat)
  | .holding i n | .releasing i n | .clearingPid i n _ => some (i, n)
  | _ => none

/-- The claim a thread is still working on or with. -/
def ticket : Pc → Option (Nat × Nat)
  | .storingPid i n _ | .storingStartTime i n _ | .activating i n _ | .holding i n | .releasing i n
  | .clearingPid i n _ | .clearingStartTime i n _ | .freeing i n _ => some (i, n)
  | _ => none

def Claimer (s : St) (b : Thread) (me : Identity) (i n : Nat) : Prop :=
  currentProcess s b = some me ∧ claimer (s.threads b) = some (i, n)

def Keeper (s : St) (b : Thread) (me : Identity) (i n : Nat) : Prop :=
  currentProcess s b = some me ∧ keeper (s.threads b) = some (i, n)

theorem ticket_of_claimer {pc : Pc} {t : Nat × Nat} (h : claimer pc = some t) : ticket pc = some t := by
  cases pc <;> first | exact h | cases h

theorem ticket_of_keeper {pc : Pc} {t : Nat × Nat} (h : keeper pc = some t) : ticket pc = some t := by
  cases pc <;> first | exact h | cases h

theorem currentProcess_iff {s : St} {a : Thread} {me : Identity} :
    currentProcess s a = some me ↔ s.processes a.1 = some me ∧ s.os me.pid = some a.1 := by
  simp only [currentProcess, Option.bind_eq_some_iff]
  constructor
  · intro h
    obtain ⟨identity, hp, h⟩ := h
    split at h
    · cases h; exact ⟨hp, ‹_›⟩
    · cases h
  · intro h
    obtain ⟨hp, ho⟩ := h
    exact ⟨me, hp, by rw [if_pos ho]⟩

/-! ## The invariant -/

/-- Entry `i` is active for the process, and its newest claim is `n`. -/
structure Keeps (s : St) (me : Identity) (i n : Nat) : Prop where
  newest : s.claims i = n
  active : (s.entries i).state.kind = .active
  pid : (s.entries i).pid = me.pid
  startTime : (s.entries i).startTime = me.startTime ∨ (s.entries i).startTime = 0

/-- A loaded active word: its claim had been completed. -/
structure Seen (s : St) (i : Nat) (l : Loaded) : Prop where
  active : l.word.kind = .active
  generation : l.word.generation = l.claims % kGenerations
  claims : l.claims ≤ s.claims i
  completed : ∀ b me, ¬ Claimer s b me i l.claims

/-- What a reclaim has read of entry `i` is the identity of the claim it saw, if that one
    still has a live keeper; once it has found the identity dead there is none. -/
def ReclaimOk (s : St) (i : Nat) : Reclaim → Prop
  | .state => True
  | .pid l => Seen s i l
  | .startTime l pid => Seen s i l ∧ ∀ b me, Keeper s b me i l.claims → pid = me.pid
  | .alive l pid startTime => Seen s i l ∧
      ∀ b me, Keeper s b me i l.claims → pid = me.pid ∧ (startTime = me.startTime ∨ startTime = 0)
  | .free l => Seen s i l ∧ ∀ b me, ¬ Keeper s b me i l.claims

def ThreadOk (s : St) (me : Identity) : Pc → Prop
  | .reclaiming _ i stage => ReclaimOk s i stage
  | .taking _ word => word.kind = .free
  | .storingPid i n claiming => s.claims i = n ∧ (s.entries i).state = claiming ∧ claiming.kind = .claiming
  | .storingStartTime i n claiming => s.claims i = n ∧ (s.entries i).state = claiming ∧ claiming.kind = .claiming ∧
      (s.entries i).pid = me.pid
  | .activating i n claiming => s.claims i = n ∧ (s.entries i).state = claiming ∧ claiming.kind = .claiming ∧
      (s.entries i).pid = me.pid ∧ ((s.entries i).startTime = me.startTime ∨ (s.entries i).startTime = 0)
  | .holding i n | .releasing i n => Keeps s me i n
  | .clearingPid i n word => Keeps s me i n ∧ word.generation = n % kGenerations
  | .clearingStartTime _ n word | .freeing _ n word => word.generation = n % kGenerations
  | .idle | .refused | .searching _ => True

structure Inv (s : St) : Prop where
  generation : ∀ i, (s.entries i).state.generation = s.claims i % kGenerations
  live : ∀ pid p, s.os pid = some p → ∃ me, s.processes p = some me ∧ me.pid = pid ∧ pid ≠ 0 ∧ pid ≤ intMax
  unborn : ∀ a : Thread, s.processes a.1 = none → s.threads a = .idle
  tickets : ∀ a i n, ticket (s.threads a) = some (i, n) → n ≤ s.claims i
  unique : ∀ a b t, ticket (s.threads a) = some t → ticket (s.threads b) = some t → a = b
  threads : ∀ a me, currentProcess s a = some me → ThreadOk s me (s.threads a)

theorem init_inv : Inv init where
  generation i := rfl
  live pid p h := by cases h
  unborn a _ := rfl
  tickets a i n h := by cases h
  unique a b t h := by cases h
  threads a me h := by cases h

/-- A live process is found alive, under its start time and without one. -/
theorem Inv.isProcessAlive {s : St} (hi : Inv s) {a : Thread} {me : Identity} (ha : currentProcess s a = some me)
    {startTime : Nat} (h : startTime = me.startTime ∨ startTime = 0) :
    isProcessAlive s ⟨me.pid, startTime⟩ = true := by
  obtain ⟨hp, ho⟩ := currentProcess_iff.mp ha
  obtain ⟨me', hp', -, hne, hmax⟩ := hi.live _ _ ho
  rw [hp] at hp'
  cases hp'
  have hpid : ¬ (me.pid = 0 ∨ intMax < me.pid) := by omega
  simp only [Participants.isProcessAlive, hpid, if_false, ho, hp]
  rcases h with rfl | rfl <;> simp

/-! ## Frames -/

/-- From `s` to `t` no old claim is taken up again: its claimer stays or becomes its keeper. -/
structure Later (s t : St) : Prop where
  claims : ∀ i, s.claims i ≤ t.claims i
  claimer : ∀ b me i n, n ≤ s.claims i → Claimer t b me i n → Claimer s b me i n
  keeper : ∀ b me i n, n ≤ s.claims i → Keeper t b me i n → Keeper s b me i n ∨ Claimer s b me i n

theorem Seen.later {s t : St} {i : Nat} {l : Loaded} (h : Seen s i l) (hl : Later s t) : Seen t i l :=
  ⟨h.active, h.generation, Nat.le_trans h.claims (hl.claims i),
    fun b me hc => h.completed b me (hl.claimer b me i _ h.claims hc)⟩

theorem Seen.keeper_later {s t : St} {i : Nat} {l : Loaded} (h : Seen s i l) (hl : Later s t) {b : Thread}
    {me : Identity} (hk : Keeper t b me i l.claims) : Keeper s b me i l.claims :=
  (hl.keeper b me i _ h.claims hk).resolve_right (h.completed b me)

theorem ReclaimOk.later {s t : St} {i : Nat} {stage : Reclaim} (h : ReclaimOk s i stage) (hl : Later s t) :
    ReclaimOk t i stage := by
  cases stage with
  | state => trivial
  | pid l => exact Seen.later h hl
  | startTime l pid => exact ⟨h.1.later hl, fun b me hk => h.2 b me (h.1.keeper_later hl hk)⟩
  | alive l pid startTime => exact ⟨h.1.later hl, fun b me hk => h.2 b me (h.1.keeper_later hl hk)⟩
  | free l => exact ⟨h.1.later hl, fun b me hk => h.2 b me (h.1.keeper_later hl hk)⟩

/-- The claim a thread relies on being the newest of its entry. -/
def owned (pc : Pc) : Option (Nat × Nat) := (claimer pc).or (keeper pc)

/-- Entry `i` is as before, except that its start time may have been cleared. -/
structure Kept (s t : St) (i : Nat) : Prop where
  claims : t.claims i = s.claims i
  state : (t.entries i).state = (s.entries i).state
  pid : (t.entries i).pid = (s.entries i).pid
  startTime : (t.entries i).startTime = (s.entries i).startTime ∨ (t.entries i).startTime = 0

theorem Kept.keeps {s t : St} {me : Identity} {i n : Nat} (h : Kept s t i) (hk : Keeps s me i n) :
    Keeps t me i n := by
  refine ⟨h.claims.trans hk.newest, by rw [h.state]; exact hk.active, h.pid.trans hk.pid, ?_⟩
  rcases h.startTime with e | e
  · rw [e]; exact hk.startTime
  · exact .inr e

theorem ThreadOk.frame {s t : St} {me : Identity} {pc : Pc} (h : ThreadOk s me pc) (hl : Later s t)
    (hk : ∀ i n, owned pc = some (i, n) → Kept s t i) : ThreadOk t me pc := by
  cases pc with
  | reclaiming claim i stage => exact ReclaimOk.later h hl
  | storingPid i n claiming =>
    have he := hk i n rfl
    exact ⟨he.claims.trans h.1, he.state.trans h.2.1, h.2.2⟩
  | storingStartTime i n claiming =>
    have he := hk i n rfl
    exact ⟨he.claims.trans h.1, he.state.trans h.2.1, h.2.2.1, he.pid.trans h.2.2.2⟩
  | activating i n claiming =>
    have he := hk i n rfl
    refine ⟨he.claims.trans h.1, he.state.trans h.2.1, h.2.2.1, he.pid.trans h.2.2.2.1, ?_⟩
    rcases he.startTime with e | e
    · rw [e]; exact h.2.2.2.2
    · exact .inr e
  | holding i n => exact (hk i n rfl).keeps h
  | releasing i n => exact (hk i n rfl).keeps h
  | clearingPid i n word => exact ⟨(hk i n rfl).keeps h.1, h.2⟩
  | _ => exact h

/-! ## One thread moves -/

/-- Thread `a` makes an access and goes on to `pc`. -/
structure Move (s t : St) (a : Thread) (pc : Pc) : Prop where
  processes : t.processes = s.processes
  os : t.os = s.os
  threads : t.threads = Function.update s.threads a pc
  claims : ∀ i, s.claims i ≤ t.claims i
  generation : ∀ i, (t.entries i).state.generation = t.claims i % kGenerations
  others : ∀ b me i n, b ≠ a → currentProcess s b = some me → owned (s.threads b) = some (i, n) → Kept s t i
  claimer : ∀ i n, claimer pc = some (i, n) → claimer (s.threads a) = some (i, n) ∨ s.claims i < n
  keeper : ∀ i n, keeper pc = some (i, n) →
    keeper (s.threads a) = some (i, n) ∨ Participants.claimer (s.threads a) = some (i, n)
  ticket : ∀ i n, ticket pc = some (i, n) → ticket (s.threads a) = some (i, n) ∨ (s.claims i < n ∧ n ≤ t.claims i)

theorem Move.currentProcess {s t : St} {a : Thread} {pc : Pc} (hm : Move s t a pc) (b : Thread) :
    currentProcess t b = currentProcess s b := by
  simp only [Participants.currentProcess, hm.processes, hm.os]

theorem Move.later {s t : St} {a : Thread} {pc : Pc} (hm : Move s t a pc) : Later s t := by
  refine ⟨hm.claims, fun b me i n hn hc => ?_, fun b me i n _ hk => ?_⟩
  · obtain ⟨hp, hc⟩ := hc
    rw [hm.currentProcess] at hp
    rw [hm.threads] at hc
    by_cases e : b = a
    · subst e
      rw [Function.update_self] at hc
      exact ⟨hp, (hm.claimer i n hc).resolve_right (by omega)⟩
    · rw [Function.update_of_ne e] at hc
      exact ⟨hp, hc⟩
  · obtain ⟨hp, hk⟩ := hk
    rw [hm.currentProcess] at hp
    rw [hm.threads] at hk
    by_cases e : b = a
    · subst e
      rw [Function.update_self] at hk
      exact (hm.keeper i n hk).imp (⟨hp, ·⟩) (⟨hp, ·⟩)
    · rw [Function.update_of_ne e] at hk
      exact .inl ⟨hp, hk⟩

theorem Inv.move {s t : St} {a : Thread} {me : Identity} {pc : Pc} (hi : Inv s) (ha : Participants.currentProcess s a = some me)
    (hm : Move s t a pc) (hok : ThreadOk t me pc) : Inv t := by
  refine ⟨hm.generation, fun pid p h => ?_, fun b hb => ?_, fun b i n hb => ?_, fun b c tk hb hc => ?_, fun b you hb => ?_⟩
  · rw [hm.os] at h
    rw [hm.processes]
    exact hi.live pid p h
  · rw [hm.processes] at hb
    have e : b ≠ a := fun e => by
      rw [e, (currentProcess_iff.mp ha).1] at hb
      cases hb
    rw [hm.threads, Function.update_of_ne e]
    exact hi.unborn b hb
  · rw [hm.threads] at hb
    by_cases e : b = a
    · subst e
      rw [Function.update_self] at hb
      rcases hm.ticket i n hb with h | h
      · exact Nat.le_trans (hi.tickets b i n h) (hm.claims i)
      · exact h.2
    · rw [Function.update_of_ne e] at hb
      exact Nat.le_trans (hi.tickets b i n hb) (hm.claims i)
  · -- a new ticket is above every old one
    obtain ⟨i, n⟩ := tk
    rw [hm.threads] at hb hc
    by_cases e : b = a <;> by_cases e' : c = a
    · rw [e, e']
    · subst e
      rw [Function.update_self] at hb
      rw [Function.update_of_ne e'] at hc
      rcases hm.ticket i n hb with h | h
      · exact hi.unique _ _ _ h hc
      · have := hi.tickets c i n hc
        omega
    · subst e'
      rw [Function.update_self] at hc
      rw [Function.update_of_ne e] at hb
      rcases hm.ticket i n hc with h | h
      · exact hi.unique _ _ _ hb h
      · have := hi.tickets b i n hb
        omega
    · rw [Function.update_of_ne e] at hb
      rw [Function.update_of_ne e'] at hc
      exact hi.unique _ _ _ hb hc
  · rw [hm.currentProcess] at hb
    rw [hm.threads]
    by_cases e : b = a
    · subst e
      rw [ha] at hb
      cases hb
      rw [Function.update_self]
      exact hok
    · rw [Function.update_of_ne e]
      exact (hi.threads b you hb).frame hm.later fun i n ho => hm.others b you i n e hb ho

/-- A move that leaves the entries alone. -/
theorem Inv.setThread {s : St} {a : Thread} {me : Identity} {pc : Pc} (hi : Inv s)
    (ha : Participants.currentProcess s a = some me)
    (hc : ∀ i n, claimer pc = some (i, n) → claimer (s.threads a) = some (i, n))
    (hk : ∀ i n, keeper pc = some (i, n) → keeper (s.threads a) = some (i, n))
    (ht : ∀ i n, ticket pc = some (i, n) → ticket (s.threads a) = some (i, n))
    (hok : ThreadOk s me pc) : Inv (setThread s a pc) := by
  have hm : Move s (Participants.setThread s a pc) a pc :=
    ⟨rfl, rfl, rfl, fun _ => Nat.le_refl _, hi.generation, fun _ _ _ _ _ _ _ => ⟨rfl, rfl, rfl, .inl rfl⟩,
      fun i n h => .inl (hc i n h), fun i n h => .inl (hk i n h), fun i n h => .inl (ht i n h)⟩
  exact hi.move ha hm (hok.frame hm.later fun _ _ _ => ⟨rfl, rfl, rfl, .inl rfl⟩)

/-- The same for a thread that works on no claim. -/
theorem Inv.setThread_free {s : St} {a : Thread} {me : Identity} {pc : Pc} (hi : Inv s)
    (ha : Participants.currentProcess s a = some me) (ht : ticket pc = none) (hok : ThreadOk s me pc) :
    Inv (Participants.setThread s a pc) := by
  refine hi.setThread ha (fun i n h => ?_) (fun i n h => ?_) (fun i n h => ?_) hok
  · rw [ticket_of_claimer h] at ht; cases ht
  · rw [ticket_of_keeper h] at ht; cases ht
  · rw [h] at ht; cases ht

@[simp] theorem setEntry_entries (s : St) (i j : Nat) (f : Entry → Entry) :
    (setEntry s i f).entries j = if j = i then f (s.entries i) else s.entries j := by
  simp [setEntry, Function.update_apply]

/-- A store to entry `i` that keeps its generation, by a thread that goes on with its claim or
    lets go of it. -/
theorem Inv.setEntry {s : St} {a : Thread} {me : Identity} {pc : Pc} {i : Nat} {f : Entry → Entry} (hi : Inv s)
    (ha : Participants.currentProcess s a = some me)
    (hf : (f (s.entries i)).state.generation = (s.entries i).state.generation)
    (hothers : ∀ b you n, b ≠ a → Participants.currentProcess s b = some you → owned (s.threads b) = some (i, n) →
      (f (s.entries i)).state = (s.entries i).state ∧ (f (s.entries i)).pid = (s.entries i).pid ∧
        (f (s.entries i)).startTime = 0)
    (hc : ∀ i n, claimer pc = some (i, n) → claimer (s.threads a) = some (i, n))
    (hk : ∀ i n, keeper pc = some (i, n) →
      keeper (s.threads a) = some (i, n) ∨ claimer (s.threads a) = some (i, n))
    (ht : ∀ i n, ticket pc = some (i, n) → ticket (s.threads a) = some (i, n))
    (hok : ThreadOk (Participants.setThread (Participants.setEntry s i f) a pc) me pc) :
    Inv (Participants.setThread (Participants.setEntry s i f) a pc) := by
  refine hi.move ha ⟨rfl, rfl, rfl, fun _ => Nat.le_refl _, fun j => ?_, fun b you j n hb hy ho => ?_,
    fun i n h => .inl (hc i n h), hk, fun i n h => .inl (ht i n h)⟩ hok
  · simp only [Participants.setThread, setEntry_entries]
    split
    · subst j; rw [hf]; exact hi.generation i
    · exact hi.generation j
  · by_cases e : j = i
    · subst e
      obtain ⟨h1, h2, h3⟩ := hothers b you n hb hy ho
      exact ⟨rfl, by simp [Participants.setThread, h1], by simp [Participants.setThread, h2],
        .inr (by simp [Participants.setThread, h3])⟩
    · exact ⟨rfl, by simp [Participants.setThread, e], by simp [Participants.setThread, e],
        .inl (by simp [Participants.setThread, e])⟩

/-! ## Every access keeps the invariant -/

theorem ticket_of_owned {pc : Pc} {t : Nat × Nat} (h : owned pc = some t) : ticket pc = some t := by
  cases pc <;> first | exact h | cases h

/-- The claim a live thread relies on is the newest of its entry, which is not free. -/
theorem Inv.owned_newest {s : St} (hi : Inv s) {b : Thread} {you : Identity} {i n : Nat}
    (hb : Participants.currentProcess s b = some you) (ho : owned (s.threads b) = some (i, n)) :
    s.claims i = n ∧ (s.entries i).state.kind ≠ .free := by
  have hok := hi.threads b you hb
  cases hpc : s.threads b <;> rw [hpc] at hok ho <;> cases ho
  · exact ⟨hok.1, by rw [hok.2.1, hok.2.2]; decide⟩
  · exact ⟨hok.1, by rw [hok.2.1, hok.2.2.1]; decide⟩
  · exact ⟨hok.1, by rw [hok.2.1, hok.2.2.1]; decide⟩
  · exact ⟨hok.newest, by rw [hok.active]; decide⟩
  · exact ⟨hok.newest, by rw [hok.active]; decide⟩
  · exact ⟨hok.1.newest, by rw [hok.1.active]; decide⟩

/-- Nobody else relies on the entry of a thread that has its newest ticket. -/
theorem Inv.no_other_owner {s : St} (hi : Inv s) {a b : Thread} {you : Identity} {i n m : Nat} (hne : b ≠ a)
    (ha : ticket (s.threads a) = some (i, n)) (hn : s.claims i = n)
    (hb : Participants.currentProcess s b = some you) (ho : owned (s.threads b) = some (i, m)) : False := by
  have hm := (hi.owned_newest hb ho).1
  rw [← hm, hn] at ho
  exact hne (hi.unique b a _ (ticket_of_owned ho) ha)

theorem reclaimNext_ticket (claim : Bool) (i : Nat) : ticket (reclaimNext claim i) = none := by
  simp only [reclaimNext]
  split
  · rfl
  · split <;> rfl

theorem reclaimNext_ok (s : St) (me : Identity) (claim : Bool) (i : Nat) : ThreadOk s me (reclaimNext claim i) := by
  simp only [reclaimNext]
  split
  · trivial
  · split <;> trivial

theorem searchNext_ticket (i : Nat) : ticket (searchNext i) = none := by
  simp only [searchNext]
  split <;> rfl

theorem searchNext_ok (s : St) (me : Identity) (i : Nat) : ThreadOk s me (searchNext i) := by
  simp only [searchNext]
  split <;> trivial

/-- The keeper of the newest claim is the thread whose identity the entry shows. -/
theorem Inv.keeper_entry {s : St} (hi : Inv s) {b : Thread} {you : Identity} {i n : Nat} (hk : Keeper s b you i n) :
    Keeps s you i n := by
  have hok := hi.threads b you hk.1
  have h := hk.2
  cases hpc : s.threads b <;> rw [hpc] at hok h <;> cases h
  · exact hok
  · exact hok
  · exact hok.1

theorem Inv.claimer_entry {s : St} (hi : Inv s) {b : Thread} {you : Identity} {i n : Nat} (hc : Claimer s b you i n) :
    (s.entries i).state.kind = .claiming := by
  have hok := hi.threads b you hc.1
  have h := hc.2
  cases hpc : s.threads b <;> rw [hpc] at hok h <;> cases h
  · rw [hok.2.1]; exact hok.2.2
  · rw [hok.2.1]; exact hok.2.2.1
  · rw [hok.2.1]; exact hok.2.2.1

/-- The stages of a reclaim that only read. -/
theorem reclaim_read {s t : St} (hi : Inv s) {a : Thread} {me : Identity} (ha : Participants.currentProcess s a = some me)
    {claim : Bool} {i : Nat} {stage : Reclaim} (hpc : s.threads a = .reclaiming claim i stage)
    (hst : ∀ l, stage ≠ .free l) (h : access s a me = some t) : Inv t := by
  have hok := hi.threads a me ha
  rw [hpc] at hok
  simp only [access, hpc] at h
  cases stage with
  | state =>
    simp only [Option.some.injEq] at h
    subst h
    split
    · rename_i hact
      refine hi.setThread_free ha rfl ⟨hact, hi.generation i, Nat.le_refl _, fun b you hc => ?_⟩
      rw [hi.claimer_entry hc] at hact
      cases hact
    · exact hi.setThread_free ha (reclaimNext_ticket _ _) (reclaimNext_ok _ _ _ _)
  | pid l =>
    simp only [Option.some.injEq] at h
    subst h
    exact hi.setThread_free ha rfl ⟨hok, fun b you hk => (hi.keeper_entry hk).pid⟩
  | startTime l pid =>
    simp only [Option.some.injEq] at h
    subst h
    exact hi.setThread_free ha rfl ⟨hok.1, fun b you hk => ⟨hok.2 b you hk, (hi.keeper_entry hk).startTime⟩⟩
  | alive l pid startTime =>
    simp only [Option.some.injEq] at h
    subst h
    split
    · exact hi.setThread_free ha (reclaimNext_ticket _ _) (reclaimNext_ok _ _ _ _)
    · rename_i hdead
      refine hi.setThread_free ha rfl ⟨hok.1, fun b you hk => hdead ?_⟩
      obtain ⟨rfl, hstart⟩ := hok.2 b you hk
      exact hi.isProcessAlive hk.1 hstart
  | free l => exact absurd rfl (hst l)

/-- A reclaim frees the entry only if the claim it saw is still the newest one and has no
    keeper. -/
theorem reclaim_free {s t : St} (hi : Inv s) {a : Thread} {me : Identity} (ha : Participants.currentProcess s a = some me)
    {claim : Bool} {i : Nat} {l : Loaded} (hpc : s.threads a = .reclaiming claim i (.free l))
    (hw : s.claims i < l.claims + kGenerations) (h : access s a me = some t) : Inv t := by
  have hok := hi.threads a me ha
  rw [hpc] at hok
  simp only [access, hpc] at h
  split at h
  · rename_i hcas
    simp only [Option.some.injEq] at h
    subst h
    have hsame : s.claims i = l.claims := by
      have h1 := hi.generation i
      rw [hcas, hok.1.generation] at h1
      have h2 := hok.1.claims
      have h3 : (s.claims i - l.claims) % kGenerations = 0 := Nat.sub_mod_eq_zero_of_mod_eq h1.symm
      have h4 := Nat.mod_eq_of_lt (a := s.claims i - l.claims) (b := kGenerations) (by omega)
      omega
    have hnone := reclaimNext_ticket claim i
    refine hi.setEntry ha (by simp [hcas]) (fun b you n hb hy ho => ?_) (fun j n hc => ?_) (fun j n hk => ?_)
      (fun j n ht => ?_) (reclaimNext_ok _ _ _ _)
    · -- a claim in progress would show `claiming`
      exfalso
      have hn := (hi.owned_newest hy ho).1
      rcases Option.or_eq_some_iff.mp ho with hc | ⟨-, hk⟩
      · have := hi.claimer_entry ⟨hy, hc⟩
        rw [hcas, hok.1.active] at this
        cases this
      · rw [← hn, hsame] at hk
        exact hok.2 b you ⟨hy, hk⟩
    · rw [ticket_of_claimer hc] at hnone; cases hnone
    · rw [ticket_of_keeper hk] at hnone; cases hnone
    · rw [ht] at hnone; cases hnone
  · simp only [Option.some.injEq] at h
    subst h
    exact hi.setThread_free ha (reclaimNext_ticket _ _) (reclaimNext_ok _ _ _ _)

/-- Taking a free entry: nobody relied on it, and its new ticket is above all others. -/
theorem take_inv {s t : St} (hi : Inv s) {a : Thread} {me : Identity} (ha : Participants.currentProcess s a = some me)
    {i : Nat} {word : Word} (hpc : s.threads a = .taking i word) (h : access s a me = some t) : Inv t := by
  have hfree : word.kind = .free := by
    have hok := hi.threads a me ha
    rw [hpc] at hok
    exact hok
  simp only [access, hpc] at h
  split at h
  · rename_i hcas
    simp only [Option.some.injEq] at h
    subst h
    refine hi.move ha ⟨rfl, rfl, rfl, fun j => ?_, fun j => ?_, fun b you j n hb hy ho => ?_, fun j n hc => ?_,
      fun j n hk => (by cases hk), fun j n ht => ?_⟩ ⟨by simp, by simp [Participants.setThread], rfl⟩
    · by_cases e : j = i
      · subst e; simp
      · simp [Function.update_of_ne e]
    · have hg := hi.generation i
      by_cases e : j = i
      · subst e
        simp only [Participants.setThread, setEntry_entries, if_true, nextGeneration, Function.update_self]
        rw [← hcas, hg]
        exact Nat.mod_add_mod _ _ _
      · simpa [Participants.setThread, e] using hi.generation j
    · have e : j ≠ i := fun e => by
        have := (hi.owned_newest hy ho).2
        rw [e, hcas, hfree] at this
        exact this rfl
      exact ⟨by simp [e], by simp [Participants.setThread, e], by simp [Participants.setThread, e],
        .inl (by simp [Participants.setThread, e])⟩
    · cases hc
      exact .inr (by omega)
    · cases ht
      exact .inr ⟨by omega, by simp⟩
  · simp only [Option.some.injEq] at h
    subst h
    exact hi.setThread_free ha (searchNext_ticket _) (searchNext_ok _ _ _)

/-- A store by the thread with the entry's newest ticket, which goes on with it. -/
theorem own_store {s : St} (hi : Inv s) {a : Thread} {me : Identity} (ha : Participants.currentProcess s a = some me)
    {i n : Nat} {pc : Pc} {f : Entry → Entry} (ht : ticket (s.threads a) = some (i, n)) (hn : s.claims i = n)
    (hf : (f (s.entries i)).state.generation = (s.entries i).state.generation)
    (hc : ∀ i n, claimer pc = some (i, n) → claimer (s.threads a) = some (i, n))
    (hk : ∀ i n, keeper pc = some (i, n) →
      keeper (s.threads a) = some (i, n) ∨ claimer (s.threads a) = some (i, n))
    (ht' : ∀ i n, ticket pc = some (i, n) → ticket (s.threads a) = some (i, n))
    (hok : ThreadOk (setThread (setEntry s i f) a pc) me pc) : Inv (setThread (setEntry s i f) a pc) :=
  hi.setEntry ha hf (fun _ _ _ hb hy ho => (hi.no_other_owner hb ht hn hy ho).elim) hc hk ht' hok

theorem claim_store {s t : St} (hi : Inv s) {a : Thread} {me : Identity} (ha : currentProcess s a = some me)
    {i n : Nat} (hpc : claimer (s.threads a) = some (i, n)) (h : access s a me = some t) : Inv t := by
  have hok := hi.threads a me ha
  cases hp : s.threads a <;> rw [hp] at hok hpc <;> cases hpc <;> simp only [access, hp, Option.some.injEq] at h <;>
    subst h
  · refine own_store hi ha (by rw [hp]; rfl) hok.1 rfl (fun j m hc => ?_) (fun _ _ hk => by cases hk)
      (fun j m ht => ?_) ⟨hok.1, ?_, hok.2.2, ?_⟩
    · rw [hp]; cases hc; rfl
    · rw [hp]; cases ht; rfl
    · simpa [setThread] using hok.2.1
    · simp [setThread]
  · refine own_store hi ha (by rw [hp]; rfl) hok.1 rfl (fun j m hc => ?_) (fun _ _ hk => by cases hk)
      (fun j m ht => ?_) ⟨hok.1, ?_, hok.2.2.1, ?_, ?_⟩
    · rw [hp]; cases hc; rfl
    · rw [hp]; cases ht; rfl
    · simpa [setThread] using hok.2.1
    · simpa [setThread] using hok.2.2.2
    · simp [setThread]
  · refine own_store hi ha (by rw [hp]; rfl) hok.1 (by simp [hok.2.1]) (fun _ _ hc => by cases hc)
      (fun j m hk => ?_) (fun j m ht => ?_) ⟨hok.1, ?_, ?_, ?_⟩
    · rw [hp]; cases hk; exact .inr rfl
    · rw [hp]; cases ht; rfl
    · simp [setThread]
    · simpa [setThread] using hok.2.2.2.1
    · simpa [setThread] using hok.2.2.2.2

/-- The accesses of a release. -/
def leaving : Pc → Option (Nat × Nat)
  | .releasing i n | .clearingPid i n _ | .clearingStartTime i n _ | .freeing i n _ => some (i, n)
  | _ => none

theorem release_inv {s t : St} (hi : Inv s) {a : Thread} {me : Identity} (ha : currentProcess s a = some me)
    {i n : Nat} (hpc : leaving (s.threads a) = some (i, n))
    (hown : ∀ word, s.threads a = .freeing i n word → s.claims i = n) (h : access s a me = some t) : Inv t := by
  have hok := hi.threads a me ha
  cases hp : s.threads a <;> rw [hp] at hok hpc <;> cases hpc <;> simp only [access, hp, Option.some.injEq] at h <;>
    subst h
  · refine hi.setThread ha (fun _ _ hc => by cases hc) (fun j m hk => ?_) (fun j m ht => ?_) ⟨hok, ?_⟩
    · rw [hp]; cases hk; rfl
    · rw [hp]; cases ht; rfl
    · rw [hi.generation, hok.newest]
  · refine own_store hi ha (by rw [hp]; rfl) hok.1.newest rfl (fun _ _ hc => by cases hc) (fun _ _ hk => by cases hk)
      (fun j m ht => ?_) hok.2
    rw [hp]; cases ht; rfl
  · -- the entry may be somebody else's by now; clearing its start time does not hurt them
    refine hi.setEntry ha rfl (fun _ _ _ _ _ _ => ⟨rfl, rfl, rfl⟩) (fun _ _ hc => by cases hc)
      (fun _ _ hk => by cases hk) (fun j m ht => ?_) hok
    rw [hp]; cases ht; rfl
  · have hn := hown _ hp
    refine own_store hi ha (by rw [hp]; rfl) hn ?_ (fun _ _ hc => by cases hc) (fun _ _ hk => by cases hk)
      (fun _ _ ht => by cases ht) trivial
    simp only
    rw [hi.generation, hn]
    exact hok

theorem access_inv {s t : St} (hi : Inv s) {a : Thread} {me : Identity} (ha : currentProcess s a = some me)
    (hw : noWrap s (.access a)) (ho : ownRelease s (.access a)) (h : access s a me = some t) : Inv t := by
  cases hp : s.threads a with
  | idle => simp [access, hp] at h
  | refused => simp [access, hp] at h
  | holding i n => simp [access, hp] at h
  | reclaiming claim i stage =>
    cases stage with
    | free l => exact reclaim_free hi ha hp (by simpa [noWrap, hp] using hw) h
    | _ => exact reclaim_read hi ha hp (by simp) h
  | searching i =>
    simp only [access, hp, Option.some.injEq] at h
    subst h
    split
    · rename_i hfree; exact hi.setThread_free ha rfl hfree
    · exact hi.setThread_free ha (searchNext_ticket _) (searchNext_ok _ _ _)
  | taking i word => exact take_inv hi ha hp h
  | storingPid i n claiming => exact claim_store hi ha (by rw [hp]; rfl) h
  | storingStartTime i n claiming => exact claim_store hi ha (by rw [hp]; rfl) h
  | activating i n claiming => exact claim_store hi ha (by rw [hp]; rfl) h
  | releasing i n => exact release_inv hi ha (by rw [hp]; rfl) (by simp [hp]) h
  | clearingPid i n word => exact release_inv hi ha (by rw [hp]; rfl) (by simp [hp]) h
  | clearingStartTime i n word => exact release_inv hi ha (by rw [hp]; rfl) (by simp [hp]) h
  | freeing i n word =>
    exact release_inv hi ha (by rw [hp]; rfl) (fun _ _ => by simpa [ownRelease, hp] using ho) h

/-! ## Processes come and go -/

theorem spawn_inv {s : St} (hi : Inv s) {p : Nat} {identity : Identity} (hnew : s.processes p = none)
    (hne : identity.pid ≠ 0) (hmax : identity.pid ≤ intMax) :
    Inv { s with
      processes := Function.update s.processes p (some identity)
      os := Function.update s.os identity.pid (some p) } := by
  -- a thread of an older process runs under the identity it had; the new one's threads are idle
  have hold : ∀ (b : Thread) (me : Identity), b.1 ≠ p → currentProcess { s with
      processes := Function.update s.processes p (some identity)
      os := Function.update s.os identity.pid (some p) } b = some me → currentProcess s b = some me := by
    intro b me hb h
    obtain ⟨h1, h2⟩ := currentProcess_iff.mp h
    simp only [Function.update_of_ne hb] at h1
    refine currentProcess_iff.mpr ⟨h1, ?_⟩
    by_cases e : me.pid = identity.pid
    · rw [e] at h2
      simp only [Function.update_self, Option.some.injEq] at h2
      exact absurd h2.symm hb
    · simpa [e] using h2
  have hidle : ∀ b : Thread, b.1 = p → s.threads b = .idle := fun b hb => hi.unborn b (by rw [hb]; exact hnew)
  have hlater : Later s { s with
      processes := Function.update s.processes p (some identity)
      os := Function.update s.os identity.pid (some p) } := by
    refine ⟨fun _ => Nat.le_refl _, fun b me i n _ hc => ?_, fun b me i n _ hk => ?_⟩
    · by_cases e : b.1 = p
      · have := hc.2
        simp only [hidle b e] at this
        cases this
      · exact ⟨hold b me e hc.1, hc.2⟩
    · by_cases e : b.1 = p
      · have := hk.2
        simp only [hidle b e] at this
        cases this
      · exact .inl ⟨hold b me e hk.1, hk.2⟩
  refine ⟨hi.generation, fun pid q h => ?_, fun b hb => ?_, hi.tickets, hi.unique, fun b me hb => ?_⟩
  · simp only [Function.update_apply] at h ⊢
    split at h
    · cases h
      exact ⟨identity, by simp, by rename_i e; rw [e], by rename_i e; rw [e]; exact hne,
        by rename_i e; rw [e]; exact hmax⟩
    · obtain ⟨self, h1, h2⟩ := hi.live pid q h
      have hq : q ≠ p := fun e => by rw [e, hnew] at h1; cases h1
      exact ⟨self, by rw [if_neg hq]; exact h1, h2⟩
  · simp only [Function.update_apply] at hb
    split at hb
    · cases hb
    · exact hi.unborn b hb
  · by_cases e : b.1 = p
    · simp only [hidle b e]
      trivial
    · exact (hi.threads b me (hold b me e hb)).frame hlater fun _ _ _ => ⟨rfl, rfl, rfl, .inl rfl⟩

theorem die_inv {s : St} (hi : Inv s) (pid : Nat) : Inv { s with os := Function.update s.os pid none } := by
  have hold : ∀ (b : Thread) (me : Identity),
      currentProcess { s with os := Function.update s.os pid none } b = some me → currentProcess s b = some me := by
    intro b me h
    obtain ⟨h1, h2⟩ := currentProcess_iff.mp h
    refine currentProcess_iff.mpr ⟨h1, ?_⟩
    simp only [Function.update_apply] at h2
    split at h2
    · cases h2
    · exact h2
  have hlater : Later s { s with os := Function.update s.os pid none } :=
    ⟨fun _ => Nat.le_refl _, fun b me i n _ hc => ⟨hold b me hc.1, hc.2⟩,
      fun b me i n _ hk => .inl ⟨hold b me hk.1, hk.2⟩⟩
  refine ⟨hi.generation, fun q p h => ?_, hi.unborn, hi.tickets, hi.unique, fun b me hb =>
    (hi.threads b me (hold b me hb)).frame hlater fun _ _ _ => ⟨rfl, rfl, rfl, .inl rfl⟩⟩
  simp only [Function.update_apply] at h
  split at h
  · cases h
  · exact hi.live q p h

/-! ## Every reachable table -/

theorem step_inv {s t : St} {act : Act} (hi : Inv s) (hok : noWrap s act ∧ ownRelease s act)
    (h : step s act = some t) : Inv t := by
  cases act with
  | spawn p identity =>
    simp only [step] at h
    split at h
    · rename_i hg
      cases h
      exact spawn_inv hi hg.1 hg.2.2.1 hg.2.2.2
    · cases h
  | die p =>
    obtain ⟨identity, -, rfl⟩ := Option.map_eq_some_iff.mp h
    exact die_inv hi _
  | claimParticipant a | reclaimDeadParticipants a =>
    obtain ⟨me, ha, h⟩ := Option.bind_eq_some_iff.mp h
    split at h
    · cases h; exact hi.setThread_free ha rfl trivial
    · cases h; exact hi.setThread_free ha rfl trivial
    · cases h
  | releaseParticipant a =>
    obtain ⟨me, ha, h⟩ := Option.bind_eq_some_iff.mp h
    split at h
    · rename_i i n hp
      cases h
      have hok := hi.threads a me ha
      rw [hp] at hok
      split
      · exact hi.setThread_free ha rfl trivial
      · refine hi.setThread ha (fun _ _ hc => by cases hc) (fun j m hk => ?_) (fun j m ht => ?_) hok
        · rw [hp]; cases hk; rfl
        · rw [hp]; cases ht; rfl
    · cases h
  | access a =>
    obtain ⟨me, ha, h⟩ := Option.bind_eq_some_iff.mp h
    exact access_inv hi ha hok.1 hok.2 h

theorem inv {s : St} (h : Reach step (fun s a => noWrap s a ∧ ownRelease s a) (· = init) s) : Inv s :=
  h.invariant (fun _ hs => hs ▸ init_inv) fun _ _ _ hi hok hst => step_inv hi hok hst

/-- An entry that ClaimParticipant returned to a live process that has not begun to release
    it is active under that claim's generation and the process's pid, has not been claimed
    again, and is nobody else's. -/
theorem holder_keeps_its_entry {s : St} (h : Reach step (fun s a => noWrap s a ∧ ownRelease s a) (· = init) s)
    {a : Thread} {me : Identity} {i n : Nat} (ha : currentProcess s a = some me) (hp : s.threads a = .holding i n) :
    (s.entries i).state = ⟨.active, n % kGenerations⟩ ∧ (s.entries i).pid = me.pid ∧ s.claims i = n ∧
      ∀ b you m, currentProcess s b = some you → s.threads b = .holding i m → b = a := by
  have hi := inv h
  have hk : Keeps s me i n := by
    have := hi.threads a me ha
    rwa [hp] at this
  refine ⟨?_, hk.pid, hk.newest, fun b you m hb hpb => ?_⟩
  · have hg := hi.generation i
    rw [hk.newest] at hg
    rw [← hg, ← hk.active]
  · by_contra hne
    exact hi.no_other_owner hne (by rw [hp]; rfl) hk.newest hb (by rw [hpb]; rfl)

/-- The checks of `noWrap` and `ownRelease` along a run. -/
def noWrapCheck (s : St) : Act → Bool
  | .access a => match s.threads a with
    | .reclaiming _ i (.free l) => decide (s.claims i < l.claims + kGenerations)
    | _ => true
  | _ => true

def ownReleaseCheck (s : St) : Act → Bool
  | .access a => match s.threads a with
    | .freeing i n _ => decide (s.claims i = n)
    | _ => true
  | _ => true

theorem noWrap_of_check (s : St) (act : Act) (h : noWrapCheck s act = true) : noWrap s act := by
  cases act <;> simp only [noWrap, noWrapCheck] at h ⊢
  split at h <;> simp_all

theorem ownRelease_of_check (s : St) (act : Act) (h : ownReleaseCheck s act = true) : ownRelease s act := by
  cases act <;> simp only [ownRelease, ownReleaseCheck] at h ⊢
  split at h <;> simp_all

def accesses (a : Thread) (n : Nat) : List Act := List.replicate n (.access a)

/-- Process 1 claims and releases entry 0, and process 2 claims it. -/
def claimReleaseClaim : List Act :=
  [Act.spawn 1 ⟨10, 100⟩, .spawn 2 ⟨20, 200⟩, .claimParticipant (1, 0)] ++ accesses (1, 0) 69 ++
  [Act.releaseParticipant (1, 0)] ++ accesses (1, 0) 4 ++ [Act.claimParticipant (2, 0)] ++ accesses (2, 0) 69

def secondHolds (s : St) : Bool :=
  decide (currentProcess s (2, 0) = some ⟨20, 200⟩ ∧ s.threads (2, 0) = .holding 0 2)

theorem the_second_holder_keeps_entry_zero :
    ∃ s, Reach step (fun s a => noWrap s a ∧ ownRelease s a) (· = init) s ∧ s.threads (2, 0) = .holding 0 2 ∧
      (s.entries 0).state = ⟨.active, 2 % kGenerations⟩ ∧ (s.entries 0).pid = 20 := by
  obtain ⟨s, hs, hp⟩ :
      ∃ s, Reach step (fun s a => noWrap s a ∧ ownRelease s a) (· = init) s ∧ secondHolds s = true :=
    reach_of_check (fun s a => noWrapCheck s a && ownReleaseCheck s a) claimReleaseClaim secondHolds
      (fun s a h => by
        have h := Bool.and_eq_true_iff.mp h
        exact ⟨noWrap_of_check s a h.1, ownRelease_of_check s a h.2⟩) rfl (by decide +kernel)
  obtain ⟨ha, ht⟩ := of_decide_eq_true hp
  obtain ⟨h1, h2, -⟩ := holder_keeps_its_entry hs ha ht
  exact ⟨s, hs, ht, h1, h2⟩

/-- Process 1 claims entry 0. It begins to release it and gets as far as clearing the pid;
    process 2 reclaims the entry and claims it; process 1 goes on and frees it; process 3
    claims it. -/
def staleRelease : List Act :=
  [Act.spawn 1 ⟨10, 100⟩, .spawn 2 ⟨20, 200⟩, .spawn 3 ⟨30, 300⟩, .claimParticipant (1, 0)] ++ accesses (1, 0) 69 ++
  [Act.releaseParticipant (1, 0)] ++ accesses (1, 0) 2 ++ [Act.claimParticipant (2, 0)] ++ accesses (2, 0) 73 ++
  accesses (1, 0) 2 ++ [Act.claimParticipant (3, 0)] ++ accesses (3, 0) 69

def sharedByTwo (s : St) : Bool :=
  decide (currentProcess s (2, 0) = some ⟨20, 200⟩ ∧ s.threads (2, 0) = .holding 0 2 ∧
    currentProcess s (3, 0) = some ⟨30, 300⟩ ∧ s.threads (3, 0) = .holding 0 3 ∧ (s.entries 0).pid = 30)

theorem a_stale_release_frees_the_next_holders_entry :
    ∃ s, Reach step noWrap (· = init) s ∧ currentProcess s (2, 0) = some ⟨20, 200⟩ ∧ s.threads (2, 0) = .holding 0 2 ∧
      currentProcess s (3, 0) = some ⟨30, 300⟩ ∧ s.threads (3, 0) = .holding 0 3 ∧ (s.entries 0).pid = 30 := by
  obtain ⟨s, hs, hp⟩ : ∃ s, Reach step noWrap (· = init) s ∧ sharedByTwo s = true :=
    reach_of_check noWrapCheck staleRelease sharedByTwo noWrap_of_check rfl (by decide +kernel)
  exact ⟨s, hs, of_decide_eq_true hp⟩

end PuppetMaster.Shm.Participants
