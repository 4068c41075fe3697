/-
  PuppetMaster.Scheduler.Conservation — no request and no event of a run is lost.

  The log of a run records each request accepted by `QueueEvent` (queued as an event of
  its own, or coalesced into a pending one) and each event's start and end. `Ledger`
  balances it against the queue and the workers: the queued events are those started and
  those still pending, the started ones are those finished and those some worker holds.
  `Account` adds the counters. `Staffed` is why the queue is empty when `Stop` clears it:
  a run has a worker, and a worker leaves only once it has seen `stopping` and an empty
  queue, after which nothing is queued any more. A run has a worker as long as threads can
  be created (`threadsStart`).
-/

import PuppetMaster.Scheduler.Bookkeeping

namespace PuppetMaster.Scheduler

open PuppetMaster.Core PuppetMaster.Lib

/-! ## The log -/

/-- An event by its component and number. -/
abbrev Key := Name × Nat

def Event.key (e : Event) : Key := (e.component, e.id)

def Entry.queuedKey : Entry → Option Key
  | .queued c id => some (c, id)
  | _ => none

def Entry.startedKey : Entry → Option Key
  | .started c id => some (c, id)
  | _ => none

def Entry.finishedKey : Entry → Option Key
  | .finished c id => some (c, id)
  | _ => none

def Entry.isCoalesced : Entry → Bool
  | .coalesced _ _ => true
  | _ => false

def queuedIn (log : List Entry) : List Key := log.filterMap Entry.queuedKey

def startedIn (log : List Entry) : List Key := log.filterMap Entry.startedKey

def finishedIn (log : List Entry) : List Key := log.filterMap Entry.finishedKey

def coalescedIn (log : List Entry) : Nat := log.countP Entry.isCoalesced

theorem mem_queuedIn {log : List Entry} {c : Name} {id : Nat} : (c, id) ∈ queuedIn log ↔ .queued c id ∈ log := by
  unfold queuedIn
  rw [List.mem_filterMap]
  constructor
  · intro h
    obtain ⟨entry, hmem, hkey⟩ := h
    cases entry <;> cases hkey
    exact hmem
  · exact fun hmem => ⟨_, hmem, rfl⟩

theorem mem_startedIn {log : List Entry} {c : Name} {id : Nat} : (c, id) ∈ startedIn log ↔ .started c id ∈ log := by
  unfold startedIn
  rw [List.mem_filterMap]
  constructor
  · intro h
    obtain ⟨entry, hmem, hkey⟩ := h
    cases entry <;> cases hkey
    exact hmem
  · exact fun hmem => ⟨_, hmem, rfl⟩

/-! ## The ledger -/

/-- A coalesced request joined an event of its component that was queued and not yet started. -/
def Joined (log : List Entry) : Prop :=
  ∀ later earlier c into, log = later ++ .coalesced c into :: earlier →
    ∃ id, into = some id ∧ (c, id) ∈ queuedIn earlier ∧ (c, id) ∉ startedIn earlier

theorem Joined.cons {log : List Entry} (h : Joined log) {entry : Entry} (he : entry.isCoalesced = false) :
    Joined (entry :: log) := by
  intro later earlier c into heq
  cases later with
  | nil =>
    cases heq
    cases he
  | cons first later =>
    cases heq
    exact h later earlier c into rfl

structure Ledger (log : List Entry) (pending held : List Event) (next : Nat) : Prop where
  taken : (queuedIn log).Perm (startedIn log ++ pending.map Event.key)
  done : (startedIn log).Perm (finishedIn log ++ held.map Event.key)
  distinct : (queuedIn log).Nodup
  fresh : ∀ k ∈ queuedIn log, k.2 < next
  joined : Joined log

section Ledger

variable {log : List Entry} {pending held : List Event} {next : Nat}

theorem Ledger.nil (next : Nat) : Ledger [] [] [] next := by
  refine ⟨List.Perm.nil, List.Perm.nil, List.nodup_nil, fun k hk => (by cases hk), ?_⟩
  intro later earlier c into heq
  simp at heq

theorem Ledger.pending_key (h : Ledger log pending held next) {e : Event} (he : e ∈ pending) :
    e.key ∈ queuedIn log ∧ e.key ∉ startedIn log := by
  have hmem : e.key ∈ pending.map Event.key := List.mem_map_of_mem he
  refine ⟨h.taken.mem_iff.mpr (List.mem_append_right _ hmem), fun hs => ?_⟩
  have hnodup := h.taken.nodup_iff.mp h.distinct
  exact (List.nodup_append.mp hnodup).2.2 _ hs _ hmem rfl

theorem Ledger.coalesce (h : Ledger log pending held next) {e : Event} (he : e ∈ pending) :
    Ledger (.coalesced e.component (some e.id) :: log) pending held next := by
  refine ⟨h.taken, h.done, h.distinct, h.fresh, ?_⟩
  intro later earlier c into heq
  cases later with
  | nil =>
    cases heq
    exact ⟨e.id, rfl, h.pending_key he⟩
  | cons first later =>
    cases heq
    exact h.joined later earlier c into rfl

theorem Ledger.push (h : Ledger log pending held next) {e : Event} (he : e.id = next) :
    Ledger (.queued e.component e.id :: log) (pending ++ [e]) held (next + 1) := by
  refine ⟨?_, h.done, ?_, ?_, h.joined.cons rfl⟩
  · have hcons : (e.key :: queuedIn log).Perm (startedIn log ++ (pending.map Event.key ++ [e.key])) := by
      rw [← List.append_assoc]
      exact (h.taken.cons _).trans (List.perm_append_singleton _ _).symm
    rw [List.map_append]
    exact hcons
  · refine List.nodup_cons.mpr ⟨fun hmem => ?_, h.distinct⟩
    have := h.fresh _ hmem
    simp only [he] at this
    omega
  · intro k hk
    rcases List.mem_cons.mp hk with rfl | hk
    · simp only [he]
      omega
    · exact Nat.lt_succ_of_lt (h.fresh k hk)

theorem Ledger.begin {pending' held' : List Event} (h : Ledger log pending held next) {e : Event}
    (hp : (e :: pending').Perm pending) (hh : held'.Perm (e :: held)) :
    Ledger (.started e.component e.id :: log) pending' held' next := by
  refine ⟨?_, ?_, h.distinct, h.fresh, h.joined.cons rfl⟩
  · refine h.taken.trans (((hp.map Event.key).symm.append_left _).trans ?_)
    exact List.perm_middle
  · refine (h.done.cons _).trans (List.perm_middle.symm.trans ?_)
    exact (hh.map Event.key).symm.append_left _

theorem Ledger.finish {held' : List Event} (h : Ledger log pending held next) {e : Event}
    (hh : (e :: held').Perm held) : Ledger (.finished e.component e.id :: log) pending held' next := by
  refine ⟨h.taken, ?_, h.distinct, h.fresh, h.joined.cons rfl⟩
  refine h.done.trans (((hh.map Event.key).symm.append_left _).trans ?_)
  exact List.perm_middle

/-- With nothing pending and nothing held, every queued event was started once and finished once. -/
theorem Ledger.settled (h : Ledger log [] [] next) {key : Key} (hq : key ∈ queuedIn log) :
    (startedIn log).count key = 1 ∧ (finishedIn log).count key = 1 := by
  have htaken : (queuedIn log).Perm (startedIn log) := by simpa using h.taken
  have hdone : (startedIn log).Perm (finishedIn log) := by simpa using h.done
  have hone := List.count_eq_one_of_mem h.distinct hq
  rw [← hdone.count_eq, ← htaken.count_eq]
  exact ⟨hone, hone⟩

/-- With nothing pending, what a request was coalesced into was started after it. -/
theorem Ledger.coalesced_starts (h : Ledger log [] held next) {later earlier : List Entry} {c : Name}
    {into : Option Nat} (hlog : log = later ++ .coalesced c into :: earlier) :
    ∃ id, into = some id ∧ .queued c id ∈ earlier ∧ .started c id ∉ earlier ∧ .started c id ∈ later := by
  obtain ⟨id, hinto, hq, hns⟩ := h.joined later earlier c into hlog
  have hearlier : .queued c id ∈ earlier := mem_queuedIn.mp hq
  have hnotStarted : .started c id ∉ earlier := fun hmem => hns (mem_startedIn.mpr hmem)
  have htaken : (queuedIn log).Perm (startedIn log) := by simpa using h.taken
  have hmem : .started c id ∈ log := by
    refine mem_startedIn.mp (htaken.mem_iff.mp (mem_queuedIn.mpr ?_))
    rw [hlog]
    exact List.mem_append_right _ (List.mem_cons_of_mem _ hearlier)
  refine ⟨id, hinto, hearlier, hnotStarted, ?_⟩
  rw [hlog] at hmem
  rcases List.mem_append.mp hmem with hl | hr
  · exact hl
  · rcases List.mem_cons.mp hr with hr | hr
    · cases hr
    · exact absurd hr hnotStarted

end Ledger

/-! ## The account of a run -/

structure Account (s : State) : Prop where
  ledger : Ledger s.log s.pendingEvents (executingEvents s.workers) s.nextEvent
  coalesced : s.coalescedEvents = s.base.coalesced + coalescedIn s.log
  dispatched : s.dispatchedEvents = s.base.dispatched + (finishedIn s.log).length

variable {options : SchedulerOptions} {s t : State}

/-- A coalesced request finds the event it joins in the queue. -/
theorem QueueOk.find_pending {pending : List Event} {queued : List Name} (h : QueueOk pending queued) {c : Name}
    (hc : c ∈ queued) : ∃ e, (pending.find? fun e => e.component = c) = some e ∧ e ∈ pending ∧ e.component = c := by
  obtain ⟨e, he, hec⟩ := List.mem_map.mp ((h.same c).mp hc)
  cases hf : pending.find? fun e => e.component = c with
  | none =>
    have := List.find?_eq_none.mp hf e he
    simp [hec] at this
  | some d =>
    have hd := List.find?_some hf
    exact ⟨d, rfl, List.mem_of_find?_eq_some hf, by simpa using hd⟩

theorem Account.queue_event (h : Account s) (hq : QueueOk s.pendingEvents s.queuedComponents) (request : Request)
    (choice : Choice) : Account (queueEvent s request choice) := by
  have hheld := (queueEvent_frame s request choice).held
  unfold queueEvent at hheld ⊢
  split
  · rename_i hin
    obtain ⟨e, hfind, hmem, hc⟩ := hq.find_pending hin
    refine ⟨?_, ?_, h.dispatched⟩
    · simp only [hfind, Option.map_some]
      exact hc ▸ h.ledger.coalesce hmem
    · simp only [coalescedIn, List.countP_cons, Entry.isCoalesced, if_true]
      rw [h.coalesced, coalescedIn, Nat.add_assoc]
  · rename_i hnew
    simp only [hnew, if_false] at hheld
    refine ⟨?_, h.coalesced, h.dispatched⟩
    simp only [hheld]
    exact h.ledger.push (e := ⟨_, _, _, _, _, _⟩) rfl

theorem Account.propagate (h : Account s) (hq : QueueOk s.pendingEvents s.queuedComponents)
    (dependents : List TaskDependent) (choices : List Choice) : Account (propagate s dependents choices) := by
  suffices hboth : QueueOk (Scheduler.propagate s dependents choices).pendingEvents
      (Scheduler.propagate s dependents choices).queuedComponents ∧ Account (Scheduler.propagate s dependents choices) from
    hboth.2
  refine propagate_induct (P := fun t => QueueOk t.pendingEvents t.queuedComponents ∧ Account t) ?_ ?_ ?_ ⟨hq, h⟩ _ _
  · exact fun u request choice hu => ⟨queueEvent_queueOk hu.1, hu.2.queue_event hu.1 request choice⟩
  · exact fun u name index trigger hu => ⟨hu.1, hu.2.1, hu.2.2, hu.2.3⟩
  · exact fun u hu => ⟨hu.1, hu.2.1, hu.2.2, hu.2.3⟩

theorem Account.enqueue (h : Account s) (hq : QueueOk s.pendingEvents s.queuedComponents) (request : Request)
    (choice : Choice) : Account (enqueue s request choice).1 := by
  unfold Scheduler.enqueue
  split
  · exact h.queue_event hq request choice
  · exact h

theorem Account.invoke (h : Account s) (hq : QueueOk s.pendingEvents s.queuedComponents) (callback : Callback)
    (choice : Choice) : Account (invoke s callback choice) := by
  have hnote : ∀ components effects faults,
      Account { s with components := components, effects := effects, faults := faults } :=
    fun _ _ _ => ⟨h.1, h.2, h.3⟩
  exact invoke_induct callback choice h (fun _ _ _ _ => hnote _ _ _)
    fun components effects faults request _ => (hnote components effects faults).queue_event hq request choice

/-- Fields that the account does not read. -/
theorem Account.aside (h : Account s) (calls : List Request) (inFlight : List Callback) (timers : List Timer) :
    Account { s with calls := calls, inFlight := inFlight, timers := timers } :=
  ⟨h.1, h.2, h.3⟩

theorem Account.set_worker (h : Account s) {i : Nat} {old : WorkerPc} (new : WorkerPc) (hi : s.workers[i]? = some old)
    (he : new.event? = old.event?) : Account (setWorker s i new) := by
  refine ⟨?_, h.coalesced, h.dispatched⟩
  have hheld : executingEvents (s.workers.set i new) = executingEvents s.workers := filterMap_set_eq hi he
  simpa only [setWorker, hheld] using h.ledger

theorem Account.dispatch (h : Account s) {i : Nat} {pc : WorkerPc} (elapsed : Nat) (hi : s.workers[i]? = some pc)
    (hpc : pc.event? = none) : Account (dispatch options s i elapsed) := by
  unfold Scheduler.dispatch
  split
  · exact h.set_worker _ hi hpc.symm
  · split
    · exact h.set_worker _ hi hpc.symm
    · dsimp only
      split
      · refine Account.set_worker ?_ _ hi hpc.symm
        exact ⟨h.1, h.2, h.3⟩
      · rename_i index event hsel
        have hpending := perm_cons_eraseIdx (selectEvent_some hsel).1
        refine ⟨h.ledger.begin hpending.symm ?_, h.coalesced, h.dispatched⟩
        have hset := filterMap_set_perm (f := WorkerPc.event?) (.executing event) hi
        rw [hpc] at hset
        exact hset

theorem Account.finish (h : Account s) {i : Nat} {event : Event} (status : Status)
    (hi : s.workers[i]? = some (.executing event)) : Account (finish s i event status) := by
  refine ⟨?_, h.coalesced, ?_⟩
  · have hheld : executingEvents (Scheduler.finish s i event status).workers = executingEvents (s.workers.set i .top) :=
      executingEvents_notifyAll _
    rw [hheld]
    exact h.ledger.finish (filterMap_set_perm (f := WorkerPc.event?) .top hi)
  · show s.dispatchedEvents + 1 = s.base.dispatched + ((finishedIn s.log).length + 1)
    rw [h.dispatched, Nat.add_assoc]

theorem Account.complete (h : Account s) (hq : QueueOk s.pendingEvents s.queuedComponents) {i : Nat} {event : Event}
    (status : Status) (choices : List Choice) (hi : s.workers[i]? = some (.executing event)) :
    Account (complete s i event status choices) := by
  unfold Scheduler.complete
  split
  · exact (h.finish status hi).propagate hq _ _
  · exact h.finish status hi

theorem Account.start (hc : Cleared s) (hs : startFirst options s = .ok t) : Account t := by
  obtain ⟨-, -, -, -, graph, -, rfl⟩ := startFirst_ok hs
  refine ⟨?_, rfl, rfl⟩
  simp only [hc.pending, hc.workers]
  exact Ledger.nil _

theorem Account.install (h : Account s) (op : InstallOp) (ops : List InstallOp) :
    Account { install s op with start := .installing ops } := by
  cases op with
  | spawnWorker =>
    refine ⟨?_, h.coalesced, h.dispatched⟩
    have hheld : executingEvents (s.workers ++ [.spawned]) = executingEvents s.workers := by
      simp [executingEvents, WorkerPc.event?]
    simpa only [Scheduler.install, hheld] using h.ledger
  | pushDataTrigger name trigger => exact ⟨h.1, h.2, h.3⟩
  | setDataCallback name topic => exact ⟨h.1, h.2, h.3⟩
  | setServiceCallback name deadline priority => exact ⟨h.1, h.2, h.3⟩
  | pushReader name => exact ⟨h.1, h.2, h.3⟩
  | spawnTimer request => exact ⟨h.1, h.2, h.3⟩

theorem Account.stop_clear (h : Account s) (hp : s.pendingEvents = []) (hj : joined s = true) :
    Account (stopClear s) := by
  refine ⟨?_, h.coalesced, h.dispatched⟩
  have hledger := h.ledger
  rw [hp, executingEvents_exited (joined_workers hj)] at hledger
  exact hledger

/-! ## A run has a worker, and workers leave last -/

/-- Every thread `Start` creates comes up. -/
def threadsStart (s : State) (move : Move) : Prop :=
  move = .installFails →
    (∀ ops, s.start ≠ .installing (.spawnWorker :: ops)) ∧ ∀ request ops, s.start ≠ .installing (.spawnTimer request :: ops)

/-- A worker past its loop. -/
def WorkerPc.gone : WorkerPc → Bool
  | .leaving => true
  | .exited => true
  | _ => false

@[simp] theorem gone_wake (pc : WorkerPc) : pc.wake.gone = pc.gone := by
  cases pc <;> rfl

/-- The workers are spawned before anything else. -/
def SpawnsFirst (ops : List InstallOp) : Prop := ops.Pairwise fun a b => b = .spawnWorker → a = .spawnWorker

structure Staffed (s : State) : Prop where
  gone : s.workers.any WorkerPc.gone = true → s.stopping = true ∧ s.pendingEvents = []
  present : s.running = true ∨ s.stop ≠ .idle → 0 < s.workers.length + spawnsLeft s.start
  spawns : ∀ ops, s.start = .installing ops → SpawnsFirst ops

theorem gone_notifyAll (workers : List WorkerPc) : (notifyAll workers).any WorkerPc.gone = workers.any WorkerPc.gone := by
  simp [notifyAll, List.any_map, Function.comp_def]

theorem any_set {α : Type} {p : α → Bool} {l : List α} {i : Nat} {new : α} (h : (l.set i new).any p = true) :
    p new = true ∨ l.any p = true := by
  obtain ⟨a, hmem, ha⟩ := List.any_eq_true.mp h
  rcases List.mem_or_eq_of_mem_set hmem with hmem | rfl
  · exact .inr (List.any_eq_true.mpr ⟨a, hmem, ha⟩)
  · exact .inl ha

/-- Queueing needs `stopping` to be false, so no worker has gone. -/
theorem Staffed.queue (h : Staffed s) (hf : QueueFrame s t) (hs : s.stopping = false) : Staffed t := by
  refine ⟨fun hg => ?_, ?_, ?_⟩
  · rw [← gone_notifyAll, hf.woken, gone_notifyAll] at hg
    rw [(h.gone hg).1] at hs
    cases hs
  · rw [hf.running, hf.stop, hf.workers, hf.start]
    exact h.present
  · rw [hf.start]
    exact h.spawns

theorem Staffed.note (h : Staffed s) (components : List ScheduledComponent) (effects : List (Nat × Nat)) (faults : Nat) :
    Staffed { s with components := components, effects := effects, faults := faults } :=
  ⟨h.gone, h.present, h.spawns⟩

theorem Staffed.aside (h : Staffed s) (calls : List Request) (inFlight : List Callback) (timers : List Timer) :
    Staffed { s with calls := calls, inFlight := inFlight, timers := timers } :=
  ⟨h.1, h.2, h.3⟩

theorem accepting_not_stopping (h : accepting s = true) : s.stopping = false := by
  simpa using (Bool.and_eq_true_iff.mp h).2

theorem Staffed.enqueue (h : Staffed s) (request : Request) (choice : Choice) :
    Staffed (enqueue s request choice).1 := by
  unfold Scheduler.enqueue
  split
  · rename_i ha
    exact h.queue (queueEvent_frame s request choice) (accepting_not_stopping ha)
  · exact h

theorem Staffed.invoke (h : Staffed s) (callback : Callback) (choice : Choice) : Staffed (invoke s callback choice) :=
  invoke_induct callback choice h (fun _ _ _ _ => h.note _ _ _) fun components effects faults request ha =>
    (h.note components effects faults).queue (queueEvent_frame _ request choice) (accepting_not_stopping ha)

theorem Staffed.set_worker (h : Staffed s) {i : Nat} (new : WorkerPc)
    (hg : new.gone = true → s.stopping = true ∧ s.pendingEvents = []) : Staffed (setWorker s i new) := by
  refine ⟨fun hany => ?_, ?_, h.spawns⟩
  · rcases any_set hany with hn | ho
    · exact hg hn
    · exact h.gone ho
  · simpa [setWorker] using h.present

theorem Staffed.dispatch (h : Staffed s) (i : Nat) (elapsed : Nat) : Staffed (dispatch options s i elapsed) := by
  unfold Scheduler.dispatch
  split
  · exact h.set_worker _ fun hg => (by cases hg)
  · split
    · rename_i hstop
      refine h.set_worker _ fun _ => ?_
      simpa using hstop
    · dsimp only
      split
      · refine Staffed.set_worker ?_ _ fun hg => (by cases hg)
        exact ⟨h.gone, h.present, h.spawns⟩
      · refine Staffed.set_worker ?_ _ fun hg => (by cases hg)
        refine ⟨fun hg => ?_, h.present, h.spawns⟩
        obtain ⟨hstop, hp⟩ := h.gone hg
        exact ⟨hstop, by simp [hp]⟩

theorem Staffed.finish (h : Staffed s) (i : Nat) (event : Event) (status : Status) :
    Staffed (finish s i event status) := by
  refine ⟨fun hg => ?_, ?_, h.spawns⟩
  · rw [Scheduler.finish, gone_notifyAll] at hg
    rcases any_set hg with hn | ho
    · cases hn
    · exact h.gone ho
  · simpa [Scheduler.finish] using h.present

theorem Staffed.complete (h : Staffed s) (i : Nat) (event : Event) (status : Status) (choices : List Choice) :
    Staffed (complete s i event status choices) := by
  unfold Scheduler.complete
  split
  · rename_i hgo
    have hns : s.stopping = false := by simpa using (Bool.and_eq_true_iff.mp hgo).2
    exact (h.finish i event status).queue (propagate_frame _ _ _) hns
  · exact h.finish i event status

theorem spawnsFirst_installPlan (options : SchedulerOptions) (components : List ScheduledComponent) :
    SpawnsFirst (installPlan options components) := by
  have hcount := count_spawn_installPlan options components
  simp only [installPlan, List.append_assoc, List.count_append, List.count_replicate_self] at hcount ⊢
  refine List.pairwise_append.mpr ⟨?_, ?_, ?_⟩
  · exact List.pairwise_replicate.mpr (.inr fun _ => rfl)
  · refine List.Pairwise.imp_of_mem ?_ (List.pairwise_of_forall fun _ _ => trivial)
    intro a b _ hb _ heq
    subst heq
    have hpos := List.count_pos_iff.mpr hb
    simp only [List.count_append] at hpos
    omega
  · intro a ha b _ _
    exact (List.mem_replicate.mp ha).2

theorem Staffed.start (h : Staffed s) (hs : startFirst options s = .ok t) : Staffed t := by
  obtain ⟨-, hstopping, -, hvalid, graph, -, rfl⟩ := startFirst_ok hs
  refine ⟨?_, fun _ => ?_, ?_⟩
  · intro hg
    rw [(h.gone hg).1] at hstopping
    cases hstopping
  · have hpos : options.workerCount ≠ 0 := by
      intro hzero
      simp [SchedulerOptions.validate, hzero, Status.error, Status.isOk] at hvalid
    simp only [spawnsLeft, count_spawn_installPlan]
    omega
  · intro ops hops
    cases hops
    exact spawnsFirst_installPlan options s.components

theorem Staffed.install (h : Staffed s) (hr : s.running = true) {op : InstallOp} {ops : List InstallOp}
    (hpc : s.start = .installing (op :: ops)) : Staffed { install s op with start := .installing ops } := by
  have hspawns : ∀ ops', StartPc.installing ops = .installing ops' → SpawnsFirst ops' := by
    intro ops' heq
    cases heq
    exact (h.spawns _ hpc).of_cons
  have hpresent : 0 < s.workers.length + (op :: ops).count .spawnWorker := by
    have := h.present (.inl hr)
    rwa [hpc] at this
  have hothers : op ≠ .spawnWorker → 0 < s.workers.length + ops.count .spawnWorker := by
    intro hne
    rwa [List.count_cons_of_ne hne] at hpresent
  cases op with
  | spawnWorker =>
    refine ⟨fun hg => ?_, fun _ => ?_, hspawns⟩
    · have : s.workers.any WorkerPc.gone = true := by simpa [Scheduler.install, WorkerPc.gone] using hg
      exact h.gone this
    · simp only [Scheduler.install, List.length_append, List.length_singleton]
      omega
  | pushDataTrigger name trigger => exact ⟨h.gone, fun _ => hothers (by simp), hspawns⟩
  | setDataCallback name topic => exact ⟨h.gone, fun _ => hothers (by simp), hspawns⟩
  | setServiceCallback name deadline priority => exact ⟨h.gone, fun _ => hothers (by simp), hspawns⟩
  | pushReader name => exact ⟨h.gone, fun _ => hothers (by simp), hspawns⟩
  | spawnTimer request => exact ⟨h.gone, fun _ => hothers (by simp), hspawns⟩

/-- A step that fails after the workers came up leaves them running. -/
theorem Staffed.install_fails (h : Staffed s) (hr : s.running = true) {op : InstallOp} {ops : List InstallOp}
    (hpc : s.start = .installing (op :: ops)) (hop : op ≠ .spawnWorker) :
    Staffed { s with start := .failing, reader := none } := by
  refine ⟨h.gone, fun _ => ?_, fun ops' heq => (by cases heq)⟩
  have hpresent : 0 < s.workers.length + (op :: ops).count .spawnWorker := by
    have := h.present (.inl hr)
    rwa [hpc] at this
  have hnone : (op :: ops).count .spawnWorker = 0 := by
    refine List.count_eq_zero.mpr fun hmem => ?_
    rcases List.mem_cons.mp hmem with heq | hmem
    · exact hop heq.symm
    · exact hop (List.rel_of_pairwise_cons (h.spawns _ hpc) hmem rfl)
  rw [hnone] at hpresent
  exact hpresent

theorem Staffed.stop_first (h : Staffed s) (hr : s.running = true) : Staffed (stopFirst s) :=
  ⟨fun hg => ⟨rfl, (h.gone hg).2⟩, fun _ => h.present (.inl hr), h.spawns⟩

theorem Life.staffed_clear (hlife : Life options s) (hpc : s.stop = .joining) : Staffed (stopClear s) := by
  have hstop : s.stop ≠ .idle := by simp [hpc]
  refine ⟨fun hg => (by cases hg), ?_, ?_⟩
  · intro h
    rcases h with hr | hne
    · rw [show (stopClear s).running = false from hlife.exclusive hstop] at hr
      cases hr
    · exact absurd rfl hne
  · intro ops hops
    rcases hlife.start_during_stop hstop with hs | hs
    · simp [stopClear, hs] at hops
    · simp [stopClear, hs] at hops

/-- All workers have been joined, and there is one: it left with the queue empty. -/
theorem Staffed.drained (h : Staffed s) (hlife : Life options s) (hpc : s.stop = .joining) (hj : joined s = true) :
    s.pendingEvents = [] := by
  have hstop : s.stop ≠ .idle := by simp [hpc]
  have hpos := h.present (.inr hstop)
  have hleft : spawnsLeft s.start = 0 := by
    rcases hlife.start_during_stop hstop with hs | hs
    · rw [hs]; rfl
    · rw [hs]; rfl
  rw [hleft, Nat.add_zero] at hpos
  obtain ⟨pc, hmem⟩ := List.exists_mem_of_length_pos hpos
  refine (h.gone (List.any_eq_true.mpr ⟨pc, hmem, ?_⟩)).2
  rw [joined_workers hj pc hmem]
  rfl

/-! ## One move -/

structure Balanced (options : SchedulerOptions) (s : State) : Prop where
  inv : Inv options s
  account : Account s
  staffed : Staffed s

theorem step_balanced {move : Move} (h : Balanced options s) (hok : threadsStart s move)
    (hs : step options s move = some t) : Balanced options t := by
  have hi := h.inv
  have ha := h.account
  have hw := h.staffed
  suffices hboth : Account t ∧ Staffed t from ⟨step_inv hi hs, hboth.1, hboth.2⟩
  cases transition_of_step hs with
  | register name triggers => exact ⟨⟨ha.1, ha.2, ha.3⟩, ⟨hw.1, hw.2, hw.3⟩⟩
  | start first => exact ⟨.start (hi.life.cleared_at_start first).1 first, hw.start first⟩
  | install pc => exact ⟨ha.install _ _, hw.install (hi.life.installing _ pc) pc⟩
  | installFails pc =>
    refine ⟨⟨ha.1, ha.2, ha.3⟩, hw.install_fails (hi.life.installing _ pc) pc ?_⟩
    rintro rfl
    exact (hok rfl).1 _ pc
  | finishStart pc =>
    refine ⟨⟨ha.1, ha.2, ha.3⟩, ⟨hw.gone, fun hrun => ?_, fun ops heq => (by cases heq)⟩⟩
    rcases pc with pc | pc
    · have := hw.present hrun
      rwa [pc] at this
    · obtain ⟨hr, hst⟩ := hi.life.finishing pc
      rcases hrun with hrun | hrun
      · cases hr.symm.trans hrun
      · exact absurd hst hrun
  | stop starting stopping running => exact ⟨⟨ha.1, ha.2, ha.3⟩, hw.stop_first running⟩
  | stopFromStart pc stopping running => exact ⟨⟨ha.1, ha.2, ha.3⟩, hw.stop_first running⟩
  | stopNotify pc =>
    refine ⟨⟨?_, ha.coalesced, ha.dispatched⟩, ⟨fun hg => ?_, fun _ => ?_, hw.spawns⟩⟩
    · simpa only [executingEvents_notifyAll] using ha.ledger
    · rw [gone_notifyAll] at hg
      exact hw.gone hg
    · simpa using hw.present (.inr (by simp [pc]))
  | stopClear pc hj => exact ⟨ha.stop_clear (hw.drained hi.life pc hj) hj, hi.life.staffed_clear pc⟩
  | trigger found => exact ⟨ha.aside _ _ _, hw.aside _ _ _⟩
  | @enqueueCall k request choice call =>
    exact ⟨(ha.aside (s.calls.eraseIdx k) s.inFlight s.timers).enqueue hi.queue request choice,
      (hw.aside _ _ _).enqueue _ choice⟩
  | copyCallback reader => exact ⟨ha.aside _ _ _, hw.aside _ _ _⟩
  | @invokeCallback k callback choice copy =>
    exact ⟨(ha.aside s.calls (s.inFlight.eraseIdx k) s.timers).invoke hi.queue callback choice,
      (hw.aside _ _ _).invoke _ choice⟩
  | timerExpires thread => exact ⟨ha.aside _ _ _, hw.aside _ _ _⟩
  | timerStops thread => exact ⟨ha.aside _ _ _, hw.aside _ _ _⟩
  | @timerEnqueues j timer choice thread =>
    exact ⟨(ha.aside s.calls s.inFlight (s.timers.set j { timer with pc := .waiting })).enqueue hi.queue timer.request
      choice, (hw.aside _ _ _).enqueue _ choice⟩
  | workerBegins thread => exact ⟨ha.set_worker _ thread rfl, hw.set_worker _ fun hg => (by cases hg)⟩
  | workerDispatches elapsed thread at_ =>
    refine ⟨ha.dispatch elapsed thread ?_, hw.dispatch _ elapsed⟩
    rcases at_ with rfl | rfl
    · rfl
    · rfl
  | workerRetries thread => exact ⟨ha.set_worker _ thread rfl, hw.set_worker _ fun hg => (by cases hg)⟩
  | workerWakes thread blocked =>
    refine ⟨ha.set_worker _ thread (event?_wake _), hw.set_worker _ fun hg => hw.gone ?_⟩
    rw [gone_wake] at hg
    exact List.any_eq_true.mpr ⟨_, List.mem_of_getElem? thread, hg⟩
  | workerCompletes status choices thread =>
    exact ⟨ha.complete hi.queue status choices thread, hw.complete _ _ status choices⟩
  | workerLeaves thread =>
    refine ⟨ha.set_worker _ thread rfl, hw.set_worker _ fun _ => hw.gone ?_⟩
    exact List.any_eq_true.mpr ⟨_, List.mem_of_getElem? thread, rfl⟩

theorem initial_balanced (options : SchedulerOptions) (clock : Int) : Balanced options (initial clock) := by
  refine ⟨initial_inv options clock, ⟨Ledger.nil 0, rfl, rfl⟩, ⟨fun hg => (by cases hg), ?_, fun ops heq => (by cases heq)⟩⟩
  simp [initial]

theorem reach_balanced (h : Reach (step options) threadsStart IsInitial s) : Balanced options s := by
  refine h.invariant ?_ fun s move t hi hok hs => step_balanced hi hok hs
  intro s h
  obtain ⟨clock, rfl⟩ := h
  exact initial_balanced options clock

/-! ## Conservation -/

/-- The balance of the counters, relative to the start of the run. -/
theorem Balanced.counters (h : Balanced options s) :
    s.base.coalesced ≤ s.coalescedEvents ∧ s.base.dispatched ≤ s.dispatchedEvents
      ∧ (queuedIn s.log).length + coalescedIn s.log = (s.coalescedEvents - s.base.coalesced)
        + (s.dispatchedEvents - s.base.dispatched) + s.activeEvents + s.pendingEvents.length := by
  have hq := h.account.ledger.taken.length_eq
  have hd := h.account.ledger.done.length_eq
  have hx : s.activeEvents = (executingEvents s.workers).length := by
    rw [h.inv.exec.active, h.inv.exec.held.length_eq, List.length_map]
  have hc := h.account.coalesced
  have hf := h.account.dispatched
  simp only [List.length_append, List.length_map] at hq hd
  exact ⟨by omega, by omega, by omega⟩

/-- When `Stop` clears the queue there is nothing in it, and nobody holds an event. -/
theorem Balanced.cleared (h : Balanced options s) (hs : step options s .stopClear = some t) :
    s.pendingEvents = [] ∧ executingEvents s.workers = [] := by
  cases transition_of_step hs with
  | stopClear pc hj => exact ⟨h.staffed.drained h.inv.life pc hj, executingEvents_exited (joined_workers hj)⟩

end PuppetMaster.Scheduler
