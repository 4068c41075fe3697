/-
  PuppetMaster.Scheduler.DispatchOrder — which event a worker takes.

  `Before` is the order of dispatch: the greater effective priority, then the earlier due
  time, then the place in the queue. `First` is an eligible event that is before every other
  eligible one; there is at most one (`First.unique`), and the selection loop finds it
  (`selectEvent_eq_some_iff`, by the invariant `Scan.Best` of the loop).

  `effectivePriority64` and `dueTime64` are the source's arithmetic with its overflows. They
  have none for the priorities, deadlines and clock readings there are: a steady clock is
  never negative.

  The queue is never reordered: a move appends to it or takes one event out (`step_pending`).
-/

import PuppetMaster.Lib.Signed
import PuppetMaster.Scheduler.Wakeups

namespace PuppetMaster.Scheduler

open PuppetMaster.Core PuppetMaster.Lib

/-! ## The arithmetic -/

/-- A `std::int32_t`. -/
def FitsInt32 (x : Int) : Prop := -(2 ^ 31) ≤ x ∧ x < 2 ^ 31

/-- A reading of `SteadyClock`. -/
def IsReading (t : Int) : Prop := 0 ≤ t ∧ t ≤ maxTime

def effectivePriority64 (options : SchedulerOptions) (event : Event) (now : Int) : Option Int :=
  if 0 < options.priorityAgingInterval ∧ event.queuedAt < now then do
    let waited ← subInt64 now event.queuedAt
    let levels ← divInt64 waited options.priorityAgingInterval
    addInt64 event.priority (min levels maxBoost)
  else some event.priority

def dueTime64 (deadline queuedAt : Int) : Option Int :=
  if 0 < deadline then do
    let left ← subInt64 maxTime queuedAt
    if deadline < left then addInt64 queuedAt deadline else some maxTime
  else some maxTime

variable {options : SchedulerOptions} {executing : List Name} {now : Int}

/-- One level for each full interval of the wait, up to the cap. -/
theorem effectivePriority_eq {event : Event} (hinterval : 0 < options.priorityAgingInterval)
    (hqueued : event.queuedAt ≤ now) :
    effectivePriority options event now
      = event.priority + min ((now - event.queuedAt) / options.priorityAgingInterval) maxBoost := by
  unfold effectivePriority
  by_cases hlt : event.queuedAt < now
  · rw [if_pos ⟨hinterval, hlt⟩, Int.tdiv_eq_ediv_of_nonneg (by omega)]
  · have hzero : now - event.queuedAt = 0 := by omega
    rw [if_neg (by omega), hzero, Int.zero_ediv]
    unfold maxBoost
    omega

theorem effectivePriority64_eq {event : Event} (hpriority : FitsInt32 event.priority) (hqueued : IsReading event.queuedAt)
    (hnow : IsReading now) : effectivePriority64 options event now = some (effectivePriority options event now) := by
  unfold FitsInt32 at hpriority
  unfold IsReading maxTime at hqueued hnow
  unfold effectivePriority64
  by_cases haged : 0 < options.priorityAgingInterval ∧ event.queuedAt < now
  · obtain ⟨hinterval, hlt⟩ := haged
    have hwait : FitsInt64 (now - event.queuedAt) := by
      rw [fitsInt64_iff]
      omega
    obtain ⟨hdiv, hlow, -⟩ := divInt64_of_nonneg (by omega) hwait hinterval
    rw [if_pos ⟨hinterval, hlt⟩, effectivePriority_eq hinterval (by omega), subInt64, signed_of_fits hwait]
    simp only [Option.bind_eq_bind, Option.bind_some, hdiv, addInt64]
    refine signed_of_fits ?_
    rw [fitsInt64_iff]
    unfold maxBoost
    omega
  · rw [if_neg haged, effectivePriority, if_neg haged]

/-- The due time, or `max()` when there is no deadline or it does not fit. -/
theorem dueTime_eq (deadline queuedAt : Int) :
    dueTime deadline queuedAt
      = if 0 < deadline ∧ queuedAt + deadline < maxTime then queuedAt + deadline else maxTime := by
  unfold dueTime
  by_cases h : 0 < deadline ∧ deadline < maxTime - queuedAt
  · rw [if_pos h, if_pos ⟨h.1, by omega⟩]
  · rw [if_neg h, if_neg (by omega)]

theorem dueTime64_eq {deadline queuedAt : Int} (hqueued : IsReading queuedAt) :
    dueTime64 deadline queuedAt = some (dueTime deadline queuedAt) := by
  unfold IsReading maxTime at hqueued
  unfold dueTime64 dueTime
  by_cases hpositive : 0 < deadline
  · have hleft : FitsInt64 (maxTime - queuedAt) := by
      rw [fitsInt64_iff, maxTime]
      omega
    rw [if_pos hpositive, subInt64, signed_of_fits hleft]
    simp only [Option.bind_eq_bind, Option.bind_some]
    by_cases hlt : deadline < maxTime - queuedAt
    · rw [if_pos hlt, if_pos ⟨hpositive, hlt⟩, addInt64]
      refine signed_of_fits ?_
      unfold maxTime at hlt
      rw [fitsInt64_iff]
      omega
    · rw [if_neg hlt, if_neg (fun h => hlt h.2)]
  · rw [if_neg hpositive, if_neg (fun h => hpositive h.1)]

/-! ## The order -/

/-- `e` at place `i` goes before, or is, `f` at place `j`. -/
def Before (options : SchedulerOptions) (now : Int) (i : Nat) (e : Event) (j : Nat) (f : Event) : Prop :=
  effectivePriority options f now < effectivePriority options e now
    ∨ effectivePriority options f now = effectivePriority options e now
      ∧ (e.dueTime < f.dueTime ∨ e.dueTime = f.dueTime ∧ i ≤ j)

theorem Before.refl (i : Nat) (e : Event) : Before options now i e i e := .inr ⟨rfl, .inr ⟨rfl, Nat.le_refl i⟩⟩

theorem Before.trans {i j k : Nat} {e f g : Event} (h : Before options now i e j f) (h' : Before options now j f k g) :
    Before options now i e k g := by
  unfold Before at *
  omega

theorem Before.antisymm {i j : Nat} {e f : Event} (h : Before options now i e j f) (h' : Before options now j f i e) :
    i = j := by
  unfold Before at *
  omega

theorem Before.priority {i j : Nat} {e f : Event} (h : Before options now i e j f) :
    effectivePriority options f now ≤ effectivePriority options e now := by
  unfold Before at h
  omega

structure First (options : SchedulerOptions) (executing : List Name) (now : Int) (pending : List Event) (index : Nat)
    (event : Event) : Prop where
  queued : pending[index]? = some event
  eligible : event.component ∉ executing
  first : ∀ j e, pending[j]? = some e → e.component ∉ executing → Before options now index event j e

theorem First.unique {pending : List Event} {i j : Nat} {e f : Event} (he : First options executing now pending i e)
    (hf : First options executing now pending j f) : i = j ∧ e = f := by
  have hij : i = j := (he.first j f hf.queued hf.eligible).antisymm (hf.first i e he.queued he.eligible)
  subst hij
  exact ⟨rfl, Option.some.inj (he.queued.symm.trans hf.queued)⟩

/-! ## The selection loop -/

/-- What the loop knows of the events it has passed. -/
structure Scan.Best (options : SchedulerOptions) (executing : List Name) (now : Int) (seen : List Event) (scan : Scan) :
    Prop where
  none : scan.selected = none → ∀ e ∈ seen, e.component ∈ executing
  some : ∀ index event, scan.selected = some (index, event) →
    First options executing now seen index event ∧ scan.selectedPriority = effectivePriority options event now
  highest : ∀ e ∈ seen, e.component ∉ executing → e.priority ≤ scan.highestDeclared
  reached : scan.highestDeclared = -(2 ^ 63)
    ∨ ∃ e ∈ seen, e.component ∉ executing ∧ e.priority = scan.highestDeclared

/-- The selected event stays the first one: the new one is skipped, or goes after it. -/
theorem First.keep {seen : List Event} {index : Nat} {event candidate : Event}
    (h : First options executing now seen index event)
    (hafter : candidate.component ∉ executing → Before options now index event seen.length candidate) :
    First options executing now (seen ++ [candidate]) index event := by
  refine ⟨?_, h.eligible, ?_⟩
  · obtain ⟨hlt, -⟩ := List.getElem?_eq_some_iff.mp h.queued
    rw [List.getElem?_append_left hlt]
    exact h.queued
  · intro j e hj he
    rcases getElem?_concat_cases hj with hj | ⟨rfl, rfl⟩
    · exact h.first j e hj he
    · exact hafter he

/-- The new event takes the place of the selected one. -/
theorem First.replace {seen : List Event} {candidate : Event} (hc : candidate.component ∉ executing)
    (hbefore : ∀ j e, seen[j]? = some e → e.component ∉ executing → Before options now seen.length candidate j e) :
    First options executing now (seen ++ [candidate]) seen.length candidate := by
  refine ⟨List.getElem?_concat_length, hc, ?_⟩
  intro j e hj he
  rcases getElem?_concat_cases hj with hj | ⟨rfl, rfl⟩
  · exact hbefore j e hj he
  · exact Before.refl _ _

theorem scanStep_highest {seen : List Event} {scan : Scan} {candidate : Event} (h : scan.Best options executing now seen)
    (hc : candidate.component ∉ executing) :
    (∀ e ∈ seen ++ [candidate], e.component ∉ executing → e.priority ≤ max scan.highestDeclared candidate.priority)
      ∧ (max scan.highestDeclared candidate.priority = -(2 ^ 63) ∨ ∃ e ∈ seen ++ [candidate],
        e.component ∉ executing ∧ e.priority = max scan.highestDeclared candidate.priority) := by
  constructor
  · intro e he hx
    rcases List.mem_append.mp he with he | he
    · have := h.highest e he hx
      omega
    · rw [List.mem_singleton.mp he]
      omega
  · by_cases hle : candidate.priority ≤ scan.highestDeclared
    · rw [Int.max_eq_left hle]
      rcases h.reached with hmin | ⟨e, he, hx, heq⟩
      · exact .inl hmin
      · exact .inr ⟨e, List.mem_append_left _ he, hx, heq⟩
    · rw [Int.max_eq_right (by omega)]
      exact .inr ⟨candidate, by simp, hc, rfl⟩

theorem scanStep_best {seen : List Event} {scan : Scan} (candidate : Event) (h : scan.Best options executing now seen) :
    (scanStep options executing now scan seen.length candidate).Best options executing now (seen ++ [candidate]) := by
  unfold scanStep
  by_cases hc : candidate.component ∈ executing
  · rw [if_pos hc]
    refine ⟨?_, ?_, ?_, ?_⟩
    · intro hnone e he
      rcases List.mem_append.mp he with he | he
      · exact h.none hnone e he
      · rwa [List.mem_singleton.mp he]
    · intro index event hsel
      obtain ⟨hfirst, heff⟩ := h.some index event hsel
      exact ⟨hfirst.keep fun hx => absurd hc hx, heff⟩
    · intro e he hx
      rcases List.mem_append.mp he with he | he
      · exact h.highest e he hx
      · rw [List.mem_singleton.mp he] at hx
        exact absurd hc hx
    · rcases h.reached with hmin | ⟨e, he, hx, heq⟩
      · exact .inl hmin
      · exact .inr ⟨e, List.mem_append_left _ he, hx, heq⟩
  · rw [if_neg hc]
    obtain ⟨hhighest, hreached⟩ := scanStep_highest h hc
    cases hsel : scan.selected with
    | none =>
      have hnew : First options executing now (seen ++ [candidate]) seen.length candidate :=
        First.replace hc fun j e hj he => absurd (h.none hsel e (List.mem_of_getElem? hj)) he
      refine ⟨fun hnone => (by cases hnone), ?_, hhighest, hreached⟩
      intro index event heq
      cases heq
      exact ⟨hnew, rfl⟩
    | some selected =>
      obtain ⟨at_, selected⟩ := selected
      obtain ⟨hfirst, heff⟩ := h.some at_ selected hsel
      dsimp only
      by_cases hbetter : better (effectivePriority options candidate now) scan.selectedPriority candidate selected = true
      · simp only [hbetter, if_true]
        have hbefore : Before options now seen.length candidate at_ selected := by
          simp only [better, Bool.or_eq_true, Bool.and_eq_true, decide_eq_true_eq, heff] at hbetter
          unfold Before
          omega
        have hnew : First options executing now (seen ++ [candidate]) seen.length candidate :=
          First.replace hc fun j e hj he => hbefore.trans (hfirst.first j e hj he)
        refine ⟨fun hnone => (by cases hnone), ?_, hhighest, hreached⟩
        intro index event heq
        cases heq
        exact ⟨hnew, rfl⟩
      · rw [if_neg hbetter]
        have hafter : Before options now at_ selected seen.length candidate := by
          obtain ⟨hlt, -⟩ := List.getElem?_eq_some_iff.mp hfirst.queued
          simp only [better, Bool.or_eq_true, Bool.and_eq_true, decide_eq_true_eq, heff] at hbetter
          unfold Before
          omega
        refine ⟨fun hnone => (by cases hnone), ?_, hhighest, hreached⟩
        intro index event heq
        cases heq
        exact ⟨hfirst.keep fun _ => hafter, heff⟩

theorem scanFrom_best {seen : List Event} {scan : Scan} (rest : List Event) (h : scan.Best options executing now seen) :
    (scanFrom options executing now seen.length rest scan).Best options executing now (seen ++ rest) := by
  induction rest generalizing seen scan with
  | nil =>
    rw [List.append_nil]
    exact h
  | cons candidate rest ih =>
    have hrest := ih (scanStep_best candidate h)
    rw [List.length_append, List.length_singleton, List.append_assoc] at hrest
    exact hrest

theorem selectEvent_best (options : SchedulerOptions) (executing : List Name) (now : Int) (pending : List Event) :
    (selectEvent options executing now pending).Best options executing now pending := by
  have hstart : Scan.start.Best options executing now [] :=
    ⟨fun _ _ he => (by cases he), fun _ _ h => (by cases h), fun _ he => (by cases he), .inl rfl⟩
  exact scanFrom_best pending hstart

theorem selectEvent_eq_some_iff {pending : List Event} {index : Nat} {event : Event} :
    (selectEvent options executing now pending).selected = some (index, event)
      ↔ First options executing now pending index event := by
  have hbest := selectEvent_best options executing now pending
  constructor
  · intro h
    exact (hbest.some index event h).1
  · intro h
    cases hsel : (selectEvent options executing now pending).selected with
    | none => exact absurd (hbest.none hsel event (List.mem_of_getElem? h.queued)) h.eligible
    | some selected =>
      obtain ⟨at_, found⟩ := selected
      obtain ⟨rfl, rfl⟩ := h.unique (hbest.some at_ found hsel).1
      rfl

/-! ## What a worker takes -/

variable {s t : State} {move : Move}

/-- The event that has been selected is taken out, and counts as aged when another one was declared higher. -/
theorem dispatch_of_first {i elapsed index : Nat} {event : Event}
    (h : First options s.executingComponents (s.clock + elapsed) s.pendingEvents index event) :
    (dispatch options s i elapsed).workers = s.workers.set i (.executing event)
      ∧ (dispatch options s i elapsed).pendingEvents = s.pendingEvents.eraseIdx index
      ∧ (dispatch options s i elapsed).agedDispatches
        = if event.priority < (selectEvent options s.executingComponents (s.clock + elapsed) s.pendingEvents).highestDeclared
          then s.agedDispatches + 1 else s.agedDispatches := by
  have hpending : s.pendingEvents.isEmpty = false := by
    cases hp : s.pendingEvents with
    | nil =>
      have := h.queued
      rw [hp] at this
      cases this
    | cons => rfl
  have hsel := selectEvent_eq_some_iff.mpr h
  unfold dispatch
  simp only [hpending, Bool.and_false, Bool.false_eq_true, if_false, hsel]
  exact ⟨rfl, rfl, rfl⟩

theorem dispatch_executes_iff {i elapsed : Nat} {event : Event} (hi : i < s.workers.length) :
    (dispatch options s i elapsed).workers[i]? = some (.executing event)
      ↔ ∃ index, First options s.executingComponents (s.clock + elapsed) s.pendingEvents index event := by
  have hset (pc : WorkerPc) : (s.workers.set i pc)[i]? = some pc := List.getElem?_set_self hi
  constructor
  · intro h
    unfold dispatch at h
    split at h
    · cases (hset _).symm.trans h
    · split at h
      · cases (hset _).symm.trans h
      · dsimp only at h
        split at h
        · cases (hset _).symm.trans h
        · rename_i index found hsel
          cases (hset _).symm.trans h
          exact ⟨index, selectEvent_eq_some_iff.mp hsel⟩
  · intro h
    obtain ⟨index, hfirst⟩ := h
    rw [(dispatch_of_first hfirst).1]
    exact hset _

/-- `highest_declared` starts below every declared priority. -/
theorem below_highest_iff {pending : List Event} {event : Event} (hpriority : -(2 ^ 31) ≤ event.priority) :
    event.priority < (selectEvent options executing now pending).highestDeclared
      ↔ ∃ e ∈ pending, e.component ∉ executing ∧ event.priority < e.priority := by
  have hbest := selectEvent_best options executing now pending
  constructor
  · intro h
    rcases hbest.reached with hmin | ⟨e, he, hx, heq⟩
    · omega
    · exact ⟨e, he, hx, by omega⟩
  · intro h
    obtain ⟨e, he, hx, hlt⟩ := h
    have := hbest.highest e he hx
    omega

/-! ## The queue keeps its order -/

theorem queueEvent_pending (s : State) (request : Request) (choice : Choice) :
    s.pendingEvents <+: (queueEvent s request choice).pendingEvents := by
  unfold queueEvent
  split
  · exact List.prefix_rfl
  · exact List.prefix_append _ _

theorem propagate_pending (s : State) (dependents : List TaskDependent) (choices : List Choice) :
    s.pendingEvents <+: (propagate s dependents choices).pendingEvents := by
  refine propagate_induct (P := fun u => s.pendingEvents <+: u.pendingEvents) ?_ ?_ ?_ List.prefix_rfl dependents choices
  · intro u request choice h
    exact h.trans (queueEvent_pending u request choice)
  · intro u name index trigger h
    exact h
  · intro u h
    exact h

theorem enqueue_pending (s : State) (request : Request) (choice : Choice) :
    s.pendingEvents <+: (enqueue s request choice).1.pendingEvents := by
  unfold enqueue
  split
  · exact queueEvent_pending s request choice
  · exact List.prefix_rfl

theorem invoke_pending (s : State) (callback : Callback) (choice : Choice) :
    s.pendingEvents <+: (invoke s callback choice).pendingEvents := by
  refine invoke_induct (P := fun u => s.pendingEvents <+: u.pendingEvents) callback choice List.prefix_rfl ?_ ?_
  · intro components effects faults _
    exact List.prefix_rfl
  · intro components effects faults request _
    exact queueEvent_pending { s with components := components, effects := effects, faults := faults } request choice

theorem complete_pending (s : State) (i : Nat) (event : Event) (status : Status) (choices : List Choice) :
    s.pendingEvents <+: (complete s i event status choices).pendingEvents := by
  unfold complete
  split
  · exact propagate_pending (finish s i event status) _ _
  · exact List.prefix_rfl

theorem dispatch_pending (options : SchedulerOptions) (s : State) (i elapsed : Nat) :
    s.pendingEvents = (dispatch options s i elapsed).pendingEvents
      ∨ ∃ index event, First options s.executingComponents (s.clock + elapsed) s.pendingEvents index event
        ∧ (dispatch options s i elapsed).pendingEvents = s.pendingEvents.eraseIdx index := by
  unfold dispatch
  split
  · exact .inl rfl
  · split
    · exact .inl rfl
    · dsimp only
      split
      · exact .inl rfl
      · rename_i index event hsel
        exact .inr ⟨index, event, selectEvent_eq_some_iff.mp hsel, rfl⟩

/-- Every queued event is where it was, unless a worker took one. -/
theorem step_pending (hs : step options s move = some t) (hclear : move ≠ .stopClear) :
    s.pendingEvents <+: t.pendingEvents
      ∨ ∃ i elapsed index event, move = .workerDispatches i elapsed
        ∧ First options s.executingComponents (s.clock + elapsed) s.pendingEvents index event
        ∧ t.pendingEvents = s.pendingEvents.eraseIdx index := by
  cases transition_of_step hs with
  | stopClear => exact absurd rfl hclear
  | start first =>
    obtain ⟨-, -, -, -, graph, -, rfl⟩ := startFirst_ok first
    exact .inl List.prefix_rfl
  | @install op ops pc => cases op <;> exact .inl List.prefix_rfl
  | enqueueCall choice call => exact .inl (enqueue_pending { s with calls := s.calls.eraseIdx _ } _ choice)
  | invokeCallback choice copy => exact .inl (invoke_pending { s with inFlight := s.inFlight.eraseIdx _ } _ choice)
  | timerEnqueues choice thread pc => exact .inl (enqueue_pending (setTimer s _ _) _ choice)
  | @workerDispatches i pc elapsed thread at_ =>
    rcases dispatch_pending options s i elapsed with hsame | ⟨index, event, hfirst, heq⟩
    · exact .inl (hsame ▸ List.prefix_rfl)
    · exact .inr ⟨i, elapsed, index, event, rfl, hfirst, heq⟩
  | workerCompletes status choices thread => exact .inl (complete_pending s _ _ status choices)
  | _ => exact .inl List.prefix_rfl

/-- A request for a component that is queued already changes nothing in the queue; any other goes to its end. -/
theorem queueEvent_position (s : State) (request : Request) (choice : Choice) :
    (request.component ∈ s.queuedComponents → (queueEvent s request choice).pendingEvents = s.pendingEvents)
      ∧ (request.component ∉ s.queuedComponents → ∃ event,
        (queueEvent s request choice).pendingEvents = s.pendingEvents ++ [event]
          ∧ event.component = request.component ∧ event.deadline = request.deadline ∧ event.priority = request.priority
          ∧ event.dueTime = dueTime request.deadline event.queuedAt) := by
  unfold queueEvent
  constructor
  · intro h
    rw [if_pos h]
  · intro h
    rw [if_neg h]
    exact ⟨_, rfl, rfl, rfl, rfl, rfl⟩

/-! ## Dispatch -/

/-- What a worker takes and how it is counted, for any queue; the arithmetic; and that nothing else moves an event. -/
theorem dispatch_order (options : SchedulerOptions) :
    (∀ (s : State) (i elapsed : Nat) (event : Event), i < s.workers.length →
      ((dispatch options s i elapsed).workers[i]? = some (.executing event)
        ↔ ∃ index, First options s.executingComponents (s.clock + elapsed) s.pendingEvents index event))
    ∧ (∀ (s : State) (i elapsed index : Nat) (event : Event),
      First options s.executingComponents (s.clock + elapsed) s.pendingEvents index event → FitsInt32 event.priority →
        (dispatch options s i elapsed).pendingEvents = s.pendingEvents.eraseIdx index
        ∧ ((dispatch options s i elapsed).agedDispatches = s.agedDispatches + 1
          ↔ ∃ e ∈ eligible s, event.priority < e.priority)
        ∧ ((dispatch options s i elapsed).agedDispatches = s.agedDispatches
          ↔ ∀ e ∈ eligible s, e.priority ≤ event.priority))
    ∧ (∀ (event : Event) (now : Int), FitsInt32 event.priority → IsReading event.queuedAt → IsReading now →
      effectivePriority64 options event now = some (effectivePriority options event now)
        ∧ (event.queuedAt ≤ now → effectivePriority options event now = event.priority
          + if 0 < options.priorityAgingInterval
            then min ((now - event.queuedAt) / options.priorityAgingInterval) maxBoost else 0))
    ∧ (∀ deadline queuedAt : Int, 0 ≤ deadline → IsReading queuedAt →
      dueTime64 deadline queuedAt
        = some (if 0 < deadline ∧ queuedAt + deadline < maxTime then queuedAt + deadline else maxTime)
        ∧ dueTime64 deadline queuedAt = some (dueTime deadline queuedAt))
    ∧ (∀ (s : State) (request : Request) (choice : Choice), request.component ∈ s.queuedComponents →
      (queueEvent s request choice).pendingEvents = s.pendingEvents
        ∧ (queueEvent s request choice).coalescedEvents = s.coalescedEvents + 1)
    ∧ (∀ (s : State) (request : Request) (choice : Choice), request.component ∉ s.queuedComponents → ∃ event,
      (queueEvent s request choice).pendingEvents = s.pendingEvents ++ [event]
        ∧ event.component = request.component ∧ event.deadline = request.deadline ∧ event.priority = request.priority
        ∧ event.dueTime = dueTime request.deadline event.queuedAt)
    ∧ (∀ (s t : State) (move : Move), step options s move = some t → move ≠ .stopClear →
      s.pendingEvents <+: t.pendingEvents
        ∨ ∃ i elapsed index event, move = .workerDispatches i elapsed
          ∧ First options s.executingComponents (s.clock + elapsed) s.pendingEvents index event
          ∧ t.pendingEvents = s.pendingEvents.eraseIdx index) := by
  refine ⟨fun s i elapsed event hi => dispatch_executes_iff hi, ?_, ?_, ?_, ?_,
    fun s request choice => (queueEvent_position s request choice).2, fun s t move hs hclear => step_pending hs hclear⟩
  · intro s i elapsed index event hfirst hpriority
    obtain ⟨-, hpending, haged⟩ := dispatch_of_first (i := i) hfirst
    have heligible : (∃ e ∈ s.pendingEvents, e.component ∉ s.executingComponents ∧ event.priority < e.priority)
        ↔ ∃ e ∈ eligible s, event.priority < e.priority := by
      simp only [eligible, List.mem_filter, decide_eq_true_eq, and_assoc]
    have hbelow : event.priority
          < (selectEvent options s.executingComponents (s.clock + elapsed) s.pendingEvents).highestDeclared
        ↔ ∃ e ∈ eligible s, event.priority < e.priority := by
      rw [← heligible]
      exact below_highest_iff hpriority.1
    refine ⟨hpending, ?_, ?_⟩
    · rw [haged, ← hbelow]
      split
      · rename_i hlt
        simp [hlt]
      · rename_i hlt
        simp [hlt]
    · have hnone : (∀ e ∈ eligible s, e.priority ≤ event.priority) ↔ ¬ ∃ e ∈ eligible s, event.priority < e.priority := by
        simp only [not_exists, not_and, Int.not_lt]
      rw [haged, hnone, ← hbelow]
      split
      · rename_i hlt
        simp [hlt]
      · rename_i hlt
        simp [hlt]
  · intro event now hpriority hqueued hnow
    refine ⟨effectivePriority64_eq hpriority hqueued hnow, ?_⟩
    intro hle
    by_cases hinterval : 0 < options.priorityAgingInterval
    · rw [if_pos hinterval, effectivePriority_eq hinterval hle]
    · rw [if_neg hinterval, effectivePriority, if_neg (fun h => hinterval h.1), Int.add_zero]
  · intro deadline queuedAt _ hqueued
    refine ⟨?_, dueTime64_eq hqueued⟩
    rw [dueTime64_eq hqueued, dueTime_eq]
  · intro s request choice hqueued
    refine ⟨(queueEvent_position s request choice).1 hqueued, ?_⟩
    unfold queueEvent
    rw [if_pos hqueued]

/-- Three levels of aging against two and one: the same effective priority, so the first in the queue goes first. -/
def agedQueue : State :=
  { initial 0 with
    workers := [.top]
    pendingEvents := [⟨[97], 0, 0, maxTime, 0, 0⟩, ⟨[98], 0, 2, maxTime, 20, 1⟩] }

theorem an_aged_event_is_taken_first :
    ∃ index, First { priorityAgingInterval := 10 } [] 35 agedQueue.pendingEvents index ⟨[97], 0, 0, maxTime, 0, 0⟩
      ∧ (dispatch { priorityAgingInterval := 10 } agedQueue 0 35).pendingEvents = agedQueue.pendingEvents.eraseIdx index
      ∧ (dispatch { priorityAgingInterval := 10 } agedQueue 0 35).agedDispatches = agedQueue.agedDispatches + 1
      ∧ effectivePriority64 { priorityAgingInterval := 10 } ⟨[98], 0, 2, maxTime, 20, 1⟩ 35 = some 3
      ∧ dueTime64 5 20 = some 25 := by
  obtain ⟨htakes, hcounts, harithmetic, hdue, -⟩ := dispatch_order { priorityAgingInterval := 10 }
  obtain ⟨index, hfirst⟩ := (htakes agedQueue 0 35 ⟨[97], 0, 0, maxTime, 0, 0⟩ (by decide)).mp (by decide +kernel)
  obtain ⟨hpending, haged, -⟩ := hcounts agedQueue 0 35 index _ hfirst (by constructor <;> decide)
  refine ⟨index, hfirst, hpending, haged.mpr ⟨⟨[98], 0, 2, maxTime, 20, 1⟩, by decide +kernel, by decide⟩, ?_, ?_⟩
  · rw [(harithmetic _ 35 (by constructor <;> decide) (by constructor <;> decide) (by constructor <;> decide)).1]
    decide +kernel
  · rw [(hdue 5 20 (by decide) (by constructor <;> decide)).1]
    decide +kernel

end PuppetMaster.Scheduler
