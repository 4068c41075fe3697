/-
  PuppetMaster.Observability.Hub — threads that record into one observer whose event callback
  is a trace exporter's `Record`.

  A thread in a `Record...` function runs its emissions one after the other. An emission is
  two turns: the section under the lock, and behind it the callback. Between any two turns
  the other threads can run. `log` has the events in the order they were applied in.

  - `log_holds`: the metrics are the totals of the log.
  - `trace_and_calls`: the trace and the callbacks that are still to run are the traced events
    of the log, each once.
  - `misses_balance`: while the observer stays enabled, a deadline miss that is not in the log
    yet is still in its thread.
-/

import Mathlib.Algebra.Order.Group.Nat
import PuppetMaster.Lib.Lists
import PuppetMaster.Lib.Run
import PuppetMaster.Observability.ChromeTrace

namespace PuppetMaster.Observability

open PuppetMaster.Core PuppetMaster.Lib

/-- The calls of the runtime and of the application; `now` is the clock a task is timed by. -/
inductive Operation where
  | topicPublished (topic : Bytes) (bytes : UInt64)
  | topicReceived (topic : Bytes) (bytes : UInt64) (latency : Option Int)
  | queueDepth (topic : Bytes) (depth : UInt64)
  | taskExecution (component : Bytes) (duration deadline : Int) (success : Bool) (queueWait completedAt now : Int)
  | emit (event : Event)

def Operation.events : Operation → List Event
  | .topicPublished topic bytes => recordTopicPublished topic bytes
  | .topicReceived topic bytes latency => recordTopicReceived topic bytes latency
  | .queueDepth topic depth => recordQueueDepth topic depth
  | .taskExecution component duration deadline success queueWait completedAt now =>
    recordTaskExecution component duration deadline success queueWait completedAt now
  | .emit event => [event]

/-- What a thread does next: hold the lock for an emission, or call back with an event. -/
inductive Action where
  | emit (event : Event)
  | call (event : Event)
  deriving DecidableEq

structure Hub where
  observer : Observer Unit
  exporter : ChromeTraceExporter := {}
  threads : List (List Action) := []
  /-- The applied events. -/
  log : List Event := []

inductive Move where
  | start (operation : Operation)
  | turn (thread : Nat) (now : Int)
  | setEnabled (enabled : Bool)

def Hub.step (hub : Hub) : Move → Option Hub
  | .start operation => some { hub with threads := hub.threads ++ [operation.events.map .emit] }
  | .setEnabled enabled => some { hub with observer := hub.observer.setEnabled enabled }
  | .turn thread now => do
    let actions ← hub.threads[thread]?
    match actions with
    | [] => none
    | .emit event :: rest =>
      let (observer, call) := hub.observer.emit event now
      some { hub with
        observer
        threads := hub.threads.set thread ((call.map fun call => Action.call call.2).toList ++ rest)
        log := if hub.observer.options.enabled then hub.log ++ [event.stamped now] else hub.log }
    | .call event :: rest =>
      some { hub with exporter := hub.exporter.record event, threads := hub.threads.set thread rest }

/-- A hub at its start: the exporter's `Record` is the observer's event callback. -/
def Hub.fresh (hub : Hub) : Prop :=
  ∃ options : Options Unit, options.enabled = true ∧ options.eventCallback = some () ∧
    ∃ startedAt, hub = { observer := .create options () startedAt }

def Hub.Reached (ok : Hub → Move → Prop) : Hub → Prop := Reach Hub.step ok Hub.fresh

/-! ## Turns -/

/-- What one move does, by its kind and the action of the thread. -/
theorem step_cases {hub next : Hub} {move : Move} (h : hub.step move = some next) :
    (∃ operation : Operation, move = .start operation
        ∧ next = { hub with threads := hub.threads ++ [operation.events.map .emit] })
      ∨ (∃ enabled, move = .setEnabled enabled ∧ next = { hub with observer := hub.observer.setEnabled enabled })
      ∨ (∃ thread event rest now, hub.threads[thread]? = some (.emit event :: rest)
          ∧ next = { hub with
              observer := (hub.observer.emit event now).1
              threads := hub.threads.set thread
                (((hub.observer.emit event now).2.map fun call => Action.call call.2).toList ++ rest)
              log := if hub.observer.options.enabled then hub.log ++ [event.stamped now] else hub.log })
      ∨ ∃ thread event rest, hub.threads[thread]? = some (.call event :: rest)
          ∧ next = { hub with exporter := hub.exporter.record event, threads := hub.threads.set thread rest } := by
  cases move with
  | start operation => exact .inl ⟨operation, rfl, (Option.some.inj h).symm⟩
  | setEnabled enabled => exact .inr (.inl ⟨enabled, rfl, (Option.some.inj h).symm⟩)
  | turn thread now =>
    simp only [Hub.step, Option.bind_eq_bind] at h
    obtain ⟨actions, hactions, h⟩ := Option.bind_eq_some_iff.mp h
    cases actions with
    | nil => cases h
    | cons action rest =>
      cases action with
      | emit event => exact .inr (.inr (.inl ⟨thread, event, rest, now, hactions, (Option.some.inj h).symm⟩))
      | call event => exact .inr (.inr (.inr ⟨thread, event, rest, hactions, (Option.some.inj h).symm⟩))

/-- The observer has applied the log, and calls the exporter. -/
structure Logged (hub : Hub) : Prop where
  holds : Holds hub.observer hub.log
  callback : hub.observer.options.eventCallback = some ()

theorem logged {ok : Hub → Move → Prop} {hub : Hub} (h : hub.Reached ok) : Logged hub := by
  refine Reach.invariant ?_ ?_ h
  · rintro hub ⟨options, -, hcallback, startedAt, rfl⟩
    refine ⟨create_holds _ _ _, ?_⟩
    show (Observer.create options () startedAt).options.eventCallback = _
    rw [Observer.create]
    split <;> exact hcallback
  · intro hub move next hlogged _ hstep
    rcases step_cases hstep with ⟨operation, -, rfl⟩ | ⟨enabled, -, rfl⟩ | ⟨thread, event, rest, now, -, rfl⟩ |
      ⟨thread, event, rest, -, rfl⟩
    · exact ⟨hlogged.holds, hlogged.callback⟩
    · exact ⟨⟨hlogged.holds.topics, hlogged.holds.tasks⟩, hlogged.callback⟩
    · refine ⟨hlogged.holds.emit event now, ?_⟩
      rw [emit_options]
      exact hlogged.callback
    · exact ⟨hlogged.holds, hlogged.callback⟩

/-- What a thread's emission leaves for it to do. -/
theorem emit_call {observer : Observer Unit} (hcallback : observer.options.eventCallback = some ()) (event : Event) (now : Int) :
    ((observer.emit event now).2.map fun call => Action.call call.2).toList =
      if observer.options.enabled then [.call (event.stamped now)] else [] := by
  unfold Observer.emit
  cases henabled : observer.options.enabled with
  | true => simp [hcallback]
  | false => rfl

/-! ## The trace -/

/-- The traced events a thread has applied and not yet called back with. -/
def inFlight : List Action → List Event
  | [] => []
  | .emit _ :: rest => inFlight rest
  | .call event :: rest => (if event.traced then [event] else []) ++ inFlight rest

theorem inFlight_emits (events : List Event) : inFlight (events.map .emit) = [] := by
  induction events with
  | nil => rfl
  | cons event events ih => exact ih

theorem map_record (exporter : ChromeTraceExporter) (event : Event) :
    (exporter.record event).events.map (·.event) =
      exporter.events.map (·.event) ++ if event.traced then [event] else [] := by
  unfold ChromeTraceExporter.record
  cases event.traced with
  | true => simp
  | false => simp

/-- No event of the log is lost on its way to the trace, and none comes twice. -/
theorem trace_and_calls {ok : Hub → Move → Prop} {hub : Hub} (h : hub.Reached ok) :
    (hub.exporter.events.map (·.event) ++ hub.threads.flatMap inFlight).Perm (hub.log.filter Event.traced) := by
  refine Reach.invariant_reach (I := fun hub : Hub =>
    (hub.exporter.events.map (·.event) ++ hub.threads.flatMap inFlight).Perm (hub.log.filter Event.traced)) ?_ ?_ h
  · rintro hub ⟨options, -, -, startedAt, rfl⟩
    exact .refl _
  · intro hub move next hreached ih _ hstep
    have hcallback := (logged hreached).callback
    rcases step_cases hstep with ⟨operation, -, rfl⟩ | ⟨enabled, -, rfl⟩ | ⟨thread, event, rest, now, hthread, rfl⟩ |
      ⟨thread, event, rest, hthread, rfl⟩
    · simpa [inFlight_emits] using ih
    · exact ih
    · simp only [emit_call hcallback]
      cases henabled : hub.observer.options.enabled with
      | true =>
        have hset : ((hub.threads.set thread (.call (event.stamped now) :: rest)).flatMap inFlight).Perm
            ((if (event.stamped now).traced then [event.stamped now] else []) ++ hub.threads.flatMap inFlight) :=
          flatMap_set_more hthread rfl
        have hlog : (hub.log ++ [event.stamped now]).filter Event.traced =
            hub.log.filter Event.traced ++ if (event.stamped now).traced then [event.stamped now] else [] := by
          rw [List.filter_append, List.filter_singleton, cond_eq_ite]
        simp only [if_true, List.singleton_append, hlog]
        refine (hset.append_left _).trans (List.Perm.trans ?_ (ih.append_right _))
        rw [List.append_assoc]
        exact List.perm_append_comm.append_left _
      | false =>
        have hset : ((hub.threads.set thread rest).flatMap inFlight).Perm ([] ++ hub.threads.flatMap inFlight) :=
          flatMap_set_more hthread rfl
        exact (hset.append_left _).trans ih
    · have hset : ((if event.traced then [event] else []) ++ (hub.threads.set thread rest).flatMap inFlight).Perm
          (hub.threads.flatMap inFlight) := flatMap_set_less hthread rfl
      simp only [map_record, List.append_assoc]
      exact (hset.append_left _).trans ih

/-! ## Deadline misses -/

def Event.executes (name : Bytes) (event : Event) : Bool := event.kind = .taskExecution ∧ event.resource = name

/-- An execution that ends after its deadline. -/
def Event.late (name : Bytes) (event : Event) : Bool :=
  event.executes name && (0 < event.deadline ∧ event.deadline < event.responseTime)

def Event.misses (name : Bytes) (event : Event) : Bool := event.kind = .deadlineMiss ∧ event.resource = name

/-- The emissions a thread still has to make. -/
def toEmit (p : Event → Bool) : List Action → Nat
  | [] => 0
  | .emit event :: rest => (p event).toNat + toEmit p rest
  | .call _ :: rest => toEmit p rest

@[simp] theorem late_stamped (name : Bytes) (event : Event) (now : Int) :
    (event.stamped now).late name = event.late name := by
  unfold Event.stamped
  split <;> rfl

@[simp] theorem misses_stamped (name : Bytes) (event : Event) (now : Int) :
    (event.stamped now).misses name = event.misses name := by
  unfold Event.stamped
  split <;> rfl

/-- The moves of threads in the `Record...` functions, and none of `SetEnabled`. -/
def recordsOnly (_ : Hub) : Move → Prop
  | .start (.emit _) => False
  | .setEnabled _ => False
  | _ => True

/-- What remains of a thread has no more late executions than misses: a miss comes behind its
execution. -/
def MissesLast (name : Bytes) (actions : List Action) : Prop :=
  ∀ rest, rest <:+ actions → toEmit (Event.late name) rest ≤ toEmit (Event.misses name) rest

theorem missesLast_nil (name : Bytes) : MissesLast name [] := by
  intro rest hrest
  rw [List.suffix_nil.mp hrest]
  exact Nat.le_refl _

theorem missesLast_cons {name : Bytes} {action : Action} {rest : List Action} : MissesLast name (action :: rest) ↔
    toEmit (Event.late name) (action :: rest) ≤ toEmit (Event.misses name) (action :: rest) ∧ MissesLast name rest := by
  constructor
  · intro h
    exact ⟨h _ List.suffix_rfl, fun more hmore => h more (hmore.trans (List.suffix_cons action rest))⟩
  · rintro ⟨hall, hrest⟩ more hmore
    rcases List.suffix_cons_iff.mp hmore with rfl | hmore
    · exact hall
    · exact hrest more hmore

/-- A function records as many late executions as misses, and a miss last. -/
theorem operation_emits (name : Bytes) {operation : Operation} (hraw : ∀ event, operation ≠ .emit event) :
    toEmit (Event.late name) (operation.events.map .emit) = toEmit (Event.misses name) (operation.events.map .emit)
      ∧ MissesLast name (operation.events.map .emit) := by
  have hone : ∀ event : Event, event.late name = false → event.misses name = false →
      toEmit (Event.late name) ([event].map .emit) = toEmit (Event.misses name) ([event].map .emit)
        ∧ MissesLast name ([event].map .emit) := by
    intro event hlate hmisses
    simp [toEmit, missesLast_cons, missesLast_nil, hlate, hmisses]
  cases operation with
  | topicPublished topic bytes => exact hone _ rfl rfl
  | topicReceived topic bytes latency => cases latency <;> exact hone _ rfl rfl
  | queueDepth topic depth => exact hone _ rfl rfl
  | taskExecution component duration deadline success queueWait completedAt now =>
    rw [Operation.events, recordTaskExecution]
    by_cases h : deadline > 0 ∧ wrapInt64 (queueWait + duration) > deadline
    · rw [if_pos (by exact h)]
      by_cases hname : component = name
      · simp [toEmit, missesLast_cons, missesLast_nil, Event.late, Event.responseTime, Event.executes, Event.misses, hname,
          h.1, h.2]
      · simp [toEmit, missesLast_cons, missesLast_nil, Event.late, Event.executes, Event.misses, hname]
    · rw [if_neg (by exact h)]
      refine hone _ ?_ rfl
      have hnot : ¬(0 < deadline ∧ deadline < wrapInt64 (queueWait + duration)) := h
      simp [Event.late, Event.responseTime, hnot]
  | emit event => exact absurd rfl (hraw event)

/-- The late executions and the misses, those of the log and those still to be emitted. -/
structure Balanced (name : Bytes) (hub : Hub) : Prop where
  enabled : hub.observer.options.enabled = true
  counts : hub.log.countP (Event.late name) + (hub.threads.map (toEmit (Event.late name))).sum =
    hub.log.countP (Event.misses name) + (hub.threads.map (toEmit (Event.misses name))).sum
  last : ∀ thread ∈ hub.threads, MissesLast name thread

theorem misses_balance (name : Bytes) {hub : Hub} (h : hub.Reached recordsOnly) : Balanced name hub := by
  refine Reach.invariant_reach ?_ ?_ h
  · rintro hub ⟨options, henabled, -, startedAt, rfl⟩
    exact ⟨(create_enabled options () startedAt).trans henabled, rfl, fun _ hthread => absurd hthread List.not_mem_nil⟩
  · intro hub move next hreached ih hok hstep
    have hcallback := (logged hreached).callback
    rcases step_cases hstep with ⟨operation, rfl, rfl⟩ | ⟨enabled, rfl, rfl⟩ | ⟨thread, event, rest, now, hthread, rfl⟩ |
      ⟨thread, event, rest, hthread, rfl⟩
    · obtain ⟨hequal, hlast⟩ := @operation_emits name operation (by rintro event rfl; exact hok)
      refine ⟨ih.enabled, ?_, ?_⟩
      · have hcounts := ih.counts
        simp only [List.map_append, List.map_cons, List.map_nil, List.sum_append, List.sum_cons, List.sum_nil]
        omega
      · intro thread hthread
        rcases List.mem_append.mp hthread with hold | hnew
        · exact ih.last thread hold
        · rw [List.mem_singleton.mp hnew]
          exact hlast
    · exact hok.elim
    · have hlast := missesLast_cons.mp (ih.last _ (List.mem_of_getElem? hthread))
      simp only [emit_call hcallback, ih.enabled, if_true, List.singleton_append]
      refine ⟨?_, ?_, ?_⟩
      · rw [emit_options]
        exact ih.enabled
      · have hlate := sum_set_exchange (w := toEmit (Event.late name)) (.call (event.stamped now) :: rest) hthread
        have hmisses := sum_set_exchange (w := toEmit (Event.misses name)) (.call (event.stamped now) :: rest) hthread
        have hcounts := ih.counts
        simp only [toEmit] at hlate hmisses
        have hone : ∀ b : Bool, (if b = true then 1 else 0) = b.toNat := by decide
        simp only [List.countP_append, List.countP_singleton, late_stamped, misses_stamped, hone]
        omega
      · intro other hother
        rcases List.mem_or_eq_of_mem_set hother with hold | rfl
        · exact ih.last other hold
        · exact missesLast_cons.mpr ⟨hlast.2 rest List.suffix_rfl, hlast.2⟩
    · have hlast := missesLast_cons.mp (ih.last _ (List.mem_of_getElem? hthread))
      refine ⟨ih.enabled, ?_, ?_⟩
      · have hlate := sum_set_exchange (w := toEmit (Event.late name)) rest hthread
        have hmisses := sum_set_exchange (w := toEmit (Event.misses name)) rest hthread
        have hcounts := ih.counts
        simp only [toEmit] at hlate hmisses
        simp only
        omega
      · intro other hother
        rcases List.mem_or_eq_of_mem_set hother with hold | rfl
        · exact ih.last other hold
        · exact hlast.2

theorem Balanced.misses_le {name : Bytes} {hub : Hub} (h : Balanced name hub) :
    hub.log.countP (Event.misses name) ≤ hub.log.countP (Event.late name) := by
  have hthreads : (hub.threads.map (toEmit (Event.late name))).sum ≤ (hub.threads.map (toEmit (Event.misses name))).sum :=
    List.sum_le_sum fun thread hthread => h.last thread hthread thread List.suffix_rfl
  have hcounts := h.counts
  omega

theorem toEmit_idle {p : Event → Bool} {threads : List (List Action)} (h : ∀ thread ∈ threads, thread = []) :
    (threads.map (toEmit p)).sum = 0 := by
  refine List.sum_eq_zero fun n hn => ?_
  obtain ⟨thread, hthread, rfl⟩ := List.mem_map.mp hn
  rw [h thread hthread]
  rfl

theorem length_ofKind_named (name : Bytes) (kind : EventKind) (events : List Event) :
    (ofKind kind (named name events)).length = events.countP fun event => event.kind = kind ∧ event.resource = name := by
  rw [ofKind, named, List.filter_filter, List.countP_eq_length_filter]
  simp only [Bool.decide_and]

/-- While the observer stays enabled, a snapshot never shows more deadline misses of a task
than executions that were late, in any interleaving; and once no thread is in a `Record...`
function it shows as many. -/
theorem deadline_misses_counted {hub : Hub} (h : hub.Reached recordsOnly) (capturedAt : Int) {metrics : TaskMetrics}
    (hmetrics : metrics ∈ (hub.observer.buildSnapshot capturedAt).tasks) :
    ∃ misses late executions,
      metrics.deadlineMisses = UInt64.ofNat misses ∧ metrics.executions = UInt64.ofNat executions
      ∧ executions = hub.log.countP (Event.executes metrics.taskName)
      ∧ late = hub.log.countP (Event.late metrics.taskName)
      ∧ misses ≤ late ∧ late ≤ executions
      ∧ ((∀ thread ∈ hub.threads, thread = []) → misses = late) := by
  obtain ⟨task, totals, hsnapshot⟩ := (logged h).holds.task_of_snapshot hmetrics
  have hbalance := misses_balance metrics.taskName h
  refine ⟨_, _, _, ?_, ?_, rfl, rfl, hbalance.misses_le, ?_, ?_⟩
  · have hmisses := totals.deadlineMisses
    rw [length_ofKind_named] at hmisses
    exact (congrArg TaskMetrics.deadlineMisses hsnapshot).trans hmisses
  · have hexecutions := totals.executions
    rw [length_ofKind_named] at hexecutions
    exact (congrArg TaskMetrics.executions hsnapshot).trans hexecutions
  · refine List.countP_mono_left fun event _ hlate => ?_
    exact (Bool.and_eq_true _ _).mp hlate |>.1
  · intro hidle
    have hcounts := hbalance.counts
    rw [toEmit_idle hidle, toEmit_idle hidle] at hcounts
    exact hcounts.symm

/-- Two threads record a late execution of one task, the second between the emissions of the
first. -/
def lateTwice : List Move :=
  let late : Operation := .taskExecution (text "pump") 30 20 true 5 100 0
  [.start late, .turn 0 0, .start late, .turn 1 0, .turn 1 0, .turn 0 0, .turn 0 0, .turn 1 0, .turn 0 0, .turn 1 0]

theorem fresh_default : Hub.fresh { observer := .create { eventCallback := some () } () 0 } :=
  ⟨{ eventCallback := some () }, rfl, rfl, 0, rfl⟩

def recordsOnlyCheck : Move → Bool
  | .start (.emit _) => false
  | .setEnabled _ => false
  | _ => true

theorem recordsOnly_of_check (hub : Hub) {move : Move} (h : recordsOnlyCheck move = true) : recordsOnly hub move := by
  cases move with
  | start operation => cases operation <;> trivial
  | turn thread now => trivial
  | setEnabled enabled => cases h

theorem deadline_misses_counted_lateTwice :
    ∃ hub : Hub, hub.Reached recordsOnly ∧ hub.threads = [[], []] ∧
      ∃ metrics ∈ (hub.observer.buildSnapshot 200).tasks, ∃ late, metrics.deadlineMisses = UInt64.ofNat late
        ∧ late = hub.log.countP (Event.late metrics.taskName) := by
  obtain ⟨hub, hreached, hend⟩ := @reach_of_check _ _ Hub.step recordsOnly _ _ (fun _ => recordsOnlyCheck) lateTwice
    (fun hub => decide (hub.threads = [[], []]) && decide ((hub.observer.buildSnapshot 200).tasks.length = 1))
    (fun hub _ => recordsOnly_of_check hub) fresh_default (by decide +kernel)
  obtain ⟨hidle, hlength⟩ := (Bool.and_eq_true _ _).mp hend
  have hthreads := of_decide_eq_true hidle
  obtain ⟨metrics, hmetrics⟩ := List.exists_mem_of_length_pos (l := (hub.observer.buildSnapshot 200).tasks)
    (by rw [of_decide_eq_true hlength]; decide)
  obtain ⟨misses, late, -, hmisses, -, -, hlate, -, -, hequal⟩ := deadline_misses_counted hreached 200 hmetrics
  refine ⟨hub, hreached, hthreads, metrics, hmetrics, misses, hmisses, ?_⟩
  rw [hequal (by rw [hthreads]; decide), hlate]

/-- In any interleaving the trace and the callbacks still to run are the executions and the
misses that were applied, each once; and once no thread is in a `Record...` function a task
has as many entries in the trace as the metrics count. -/
theorem trace_complete {hub : Hub} (h : hub.Reached anyMove) :
    (hub.exporter.events.map (·.event) ++ hub.threads.flatMap inFlight).Perm (hub.log.filter Event.traced)
      ∧ ((∀ thread ∈ hub.threads, thread = []) →
        ∀ capturedAt, ∀ metrics ∈ (hub.observer.buildSnapshot capturedAt).tasks,
          metrics.executions = UInt64.ofNat (hub.exporter.events.countP fun recorded => recorded.event.executes metrics.taskName)
          ∧ metrics.deadlineMisses =
            UInt64.ofNat (hub.exporter.events.countP fun recorded => recorded.event.misses metrics.taskName)) := by
  refine ⟨trace_and_calls h, fun hidle capturedAt metrics hmetrics => ?_⟩
  obtain ⟨task, totals, hsnapshot⟩ := (logged h).holds.task_of_snapshot hmetrics
  have hnone : hub.threads.flatMap inFlight = [] := by
    refine List.flatMap_eq_nil_iff.mpr fun thread hthread => ?_
    rw [hidle thread hthread]
    rfl
  have htrace := trace_and_calls h
  rw [hnone, List.append_nil] at htrace
  -- the traced events are all there are of these two kinds
  have hcount : ∀ p : Event → Bool, (∀ event, p event = true → event.traced = true) →
      hub.log.countP p = hub.exporter.events.countP fun recorded => p recorded.event := by
    intro p hp
    have hperm := htrace.countP_eq p
    rw [List.countP_filter, List.countP_map] at hperm
    rw [show hub.exporter.events.countP (fun recorded => p recorded.event) = _ from hperm]
    refine List.countP_congr fun event _ => ?_
    by_cases hevent : p event = true
    · simp [hevent, hp event hevent]
    · simp [hevent]
  constructor
  · have hexecutions := totals.executions
    rw [length_ofKind_named] at hexecutions
    rw [← hcount (Event.executes metrics.taskName) fun event hevent => ?_]
    · exact (congrArg TaskMetrics.executions hsnapshot).trans hexecutions
    · simp only [Event.executes, decide_eq_true_eq] at hevent
      simp [Event.traced, hevent.1]
  · have hmisses := totals.deadlineMisses
    rw [length_ofKind_named] at hmisses
    rw [← hcount (Event.misses metrics.taskName) fun event hevent => ?_]
    · exact (congrArg TaskMetrics.deadlineMisses hsnapshot).trans hmisses
    · simp only [Event.misses, decide_eq_true_eq] at hevent
      simp [Event.traced, hevent.1]

theorem trace_complete_lateTwice :
    ∃ hub : Hub, hub.Reached anyMove ∧ hub.log.length = 4
      ∧ (hub.exporter.events.map (·.event) ++ hub.threads.flatMap inFlight).Perm (hub.log.filter Event.traced) := by
  obtain ⟨hub, hreached, hlength⟩ := @reach_of_run _ _ Hub.step _ _ lateTwice (fun hub => decide (hub.log.length = 4))
    fresh_default (by decide +kernel)
  exact ⟨hub, hreached, of_decide_eq_true hlength, (trace_complete hreached).1⟩

end PuppetMaster.Observability
