/-
  PuppetMaster.Scheduler.Propagation — the lookups of a completed component's dependents.

  `DispatchLoop` looks the dependents of a component up with `at`, on a worker thread, so
  an index out of range would end the process (`terminated`). The indices were given by
  `InstallTaskTriggers`. `Reaches`: the task trigger that a dependent names is installed
  and has the dependency. While a run lasts no move takes a task trigger away or resizes
  it (`TasksKept`), so the propagation never leaves the tables.
-/

import PuppetMaster.Scheduler.Restart

namespace PuppetMaster.Scheduler

open PuppetMaster.Core PuppetMaster.Lib

/-! ## Installed task triggers -/

def taskDependencies (components : List ScheduledComponent) (name : Name) (index : Nat) : Option Nat :=
  installedSize ScheduledComponent.taskTriggers components name index

/-- The task trigger that the dependent names is installed and has the dependency. -/
def Reaches (components : List ScheduledComponent) (dependent : TaskDependent) : Prop :=
  ∃ n, taskDependencies components dependent.component dependent.triggerIndex = some n ∧ dependent.dependencyIndex < n

theorem lookupTask_isSome {s : State} {dependent : TaskDependent} (h : Reaches s.components dependent) :
    ∃ trigger next queue, lookupTask s dependent = some (trigger, next, queue) := by
  obtain ⟨n, hn, hlt⟩ := h
  obtain ⟨c, trigger, hc, ht, rfl⟩ := installedSize_some hn
  obtain ⟨next, queue, hnotify⟩ := TriggerState.notify_isSome hlt
  exact ⟨trigger, next, queue, by simp [lookupTask, hc, ht, hnotify]⟩

theorem lookupTask_some {s : State} {dependent : TaskDependent} {trigger next : TriggerState} {queue : Bool}
    (h : lookupTask s dependent = some (trigger, next, queue)) :
    ∃ c, findComponent s.components dependent.component = some c
      ∧ c.taskTriggers[dependent.triggerIndex]? = some trigger ∧ next.ready.length = trigger.ready.length := by
  simp only [lookupTask, Option.bind_eq_bind, Option.bind_eq_some_iff] at h
  obtain ⟨c, hc, found, ht, ⟨n, q⟩, hnotify, heq⟩ := h
  cases heq
  exact ⟨c, hc, ht, TriggerState.notify_ready_length hnotify⟩

/-! ## Moves that keep them -/

/-- `t` has the dependents of `s`, and every task trigger of `s` with its size. -/
structure TasksKept (s t : State) : Prop where
  terminated : t.terminated = s.terminated
  dependents : t.taskDependents = s.taskDependents
  triggers : ∀ name i n, taskDependencies s.components name i = some n → taskDependencies t.components name i = some n

theorem TasksKept.refl (s : State) : TasksKept s s := ⟨rfl, rfl, fun _ _ _ h => h⟩

theorem TasksKept.trans {s t u : State} (h : TasksKept s t) (h' : TasksKept t u) : TasksKept s u :=
  ⟨h'.terminated.trans h.terminated, h'.dependents.trans h.dependents,
    fun name i n hd => h'.triggers name i n (h.triggers name i n hd)⟩

theorem TasksKept.reaches {s t : State} (h : TasksKept s t) {dependent : TaskDependent}
    (hd : Reaches s.components dependent) : Reaches t.components dependent := by
  obtain ⟨n, hn, hlt⟩ := hd
  exact ⟨n, h.triggers _ _ _ hn, hlt⟩

theorem queueEvent_tasksKept (s : State) (request : Request) (choice : Choice) :
    TasksKept s (queueEvent s request choice) := by
  unfold queueEvent
  split
  · exact ⟨rfl, rfl, fun _ _ _ h => h⟩
  · exact ⟨rfl, rfl, fun _ _ _ h => h⟩

theorem enqueue_tasksKept (s : State) (request : Request) (choice : Choice) :
    TasksKept s (enqueue s request choice).1 := by
  unfold enqueue
  split
  · exact queueEvent_tasksKept s request choice
  · exact TasksKept.refl s

/-- An update of a component that leaves its task triggers alone. -/
theorem updateComponent_tasksKept {s t : State} {name : Name} {f : ScheduledComponent → ScheduledComponent}
    (terminated : t.terminated = s.terminated) (dependents : t.taskDependents = s.taskDependents)
    (components : t.components = updateComponent s.components name f) (hname : ∀ c, (f c).name = c.name)
    (htasks : ∀ c, (f c).taskTriggers = c.taskTriggers) : TasksKept s t := by
  refine ⟨terminated, dependents, fun other i n h => ?_⟩
  rw [components]
  refine installedSize_updateComponent hname (fun c _ i trigger ht => ⟨trigger, ?_, rfl⟩) h
  rw [htasks]
  exact ht

/-- Noting a dependency keeps the trigger and its size. -/
theorem setTaskTrigger_tasksKept {s : State} {dependent : TaskDependent} {trigger next : TriggerState} {queue : Bool}
    (h : lookupTask s dependent = some (trigger, next, queue)) :
    TasksKept s { s with
      components := setTaskTrigger s.components dependent.component dependent.triggerIndex next } := by
  refine ⟨rfl, rfl, fun other i n hn => installedSize_updateComponent ?_ ?_ hn⟩
  · exact fun _ => rfl
  · obtain ⟨c, hc, ht, hlen⟩ := lookupTask_some h
    intro d hd i found hfound
    cases hc.symm.trans hd
    exact sizes_set ht hlen hfound

/-- Every lookup of the loop finds its trigger. -/
theorem propagate_tasksKept {s : State} {dependents : List TaskDependent} (choices : List Choice)
    (h : ∀ dependent ∈ dependents, Reaches s.components dependent) : TasksKept s (propagate s dependents choices) := by
  induction dependents generalizing s choices with
  | nil => exact TasksKept.refl s
  | cons dependent rest ih =>
    obtain ⟨trigger, next, queue, hlookup⟩ := lookupTask_isSome (h dependent (List.mem_cons_self ..))
    have hnoted := setTaskTrigger_tasksKept hlookup
    have hrest : ∀ d ∈ rest, Reaches s.components d := fun d hd => h d (List.mem_cons_of_mem _ hd)
    simp only [propagate, hlookup]
    split
    · have hqueued := hnoted.trans (queueEvent_tasksKept _ ⟨dependent.component, trigger.deadline, trigger.priority⟩
        (choices.headD {}))
      exact hqueued.trans (ih choices.tail fun d hd => hqueued.reaches (hrest d hd))
    · exact hnoted.trans (ih choices fun d hd => hnoted.reaches (hrest d hd))

theorem dispatch_tasksKept (options : SchedulerOptions) (s : State) (i elapsed : Nat) :
    TasksKept s (dispatch options s i elapsed) := by
  unfold dispatch
  split
  · exact ⟨rfl, rfl, fun _ _ _ h => h⟩
  · split
    · exact ⟨rfl, rfl, fun _ _ _ h => h⟩
    · dsimp only
      split
      · exact ⟨rfl, rfl, fun _ _ _ h => h⟩
      · exact ⟨rfl, rfl, fun _ _ _ h => h⟩

theorem complete_tasksKept {s : State} (h : ∀ dependent ∈ s.taskDependents, Reaches s.components dependent) (i : Nat)
    (event : Event) (status : Status) (choices : List Choice) : TasksKept s (complete s i event status choices) := by
  have hfinish : TasksKept s (finish s i event status) := ⟨rfl, rfl, fun _ _ _ h => h⟩
  unfold complete
  split
  · refine hfinish.trans (propagate_tasksKept choices fun dependent hd => ?_)
    exact h dependent (List.mem_of_mem_filter hd)
  · exact hfinish

theorem onDataAvailable_tasksKept (s : State) (name : Name) (triggerIndex topicIndex from_ : Nat) (choice : Choice) :
    TasksKept s (onDataAvailable s name triggerIndex topicIndex from_ choice) := by
  unfold onDataAvailable
  split
  · exact TasksKept.refl s
  · split
    · exact ⟨rfl, rfl, fun _ _ _ h => h⟩
    · rename_i trigger next queue _
      have hnoted : TasksKept s { s with
          components := setDataTrigger s.components name triggerIndex next
          effects := (from_, s.run) :: s.effects } :=
        updateComponent_tasksKept rfl rfl rfl (fun _ => rfl) fun _ => rfl
      dsimp only
      split
      · exact hnoted.trans (queueEvent_tasksKept _ _ _)
      · exact hnoted

theorem invoke_tasksKept (s : State) (callback : Callback) (choice : Choice) :
    TasksKept s (invoke s callback choice) := by
  unfold invoke
  split
  · exact onDataAvailable_tasksKept s _ _ _ _ choice
  · split
    · have hnoted : TasksKept s { s with effects := (callback.run, s.run) :: s.effects } := ⟨rfl, rfl, fun _ _ _ h => h⟩
      exact hnoted.trans (queueEvent_tasksKept _ _ _)
    · exact TasksKept.refl s

theorem install_tasksKept (s : State) (op : InstallOp) (ops : List InstallOp) :
    TasksKept s { install s op with start := .installing ops } := by
  cases op with
  | spawnWorker => exact ⟨rfl, rfl, fun _ _ _ h => h⟩
  | pushDataTrigger name trigger => exact updateComponent_tasksKept rfl rfl rfl (fun _ => rfl) fun _ => rfl
  | setDataCallback name topic => exact ⟨rfl, rfl, fun _ _ _ h => h⟩
  | setServiceCallback name deadline priority => exact ⟨rfl, rfl, fun _ _ _ h => h⟩
  | pushReader name => exact updateComponent_tasksKept rfl rfl rfl (fun _ => rfl) fun _ => rfl
  | spawnTimer request => exact ⟨rfl, rfl, fun _ _ _ h => h⟩

theorem findComponent_insertComponent {components : List ScheduledComponent} {new : ScheduledComponent} {name : Name}
    (h : new.name ≠ name) : findComponent (insertComponent components new) name = findComponent components name := by
  unfold findComponent insertComponent
  rw [List.find?_append, List.find?_cons_of_neg (by simpa using h), ← List.find?_append, List.takeWhile_append_dropWhile]

theorem register_tasksKept {s : State} {name : Name} (triggers : List TriggerSpec)
    (fresh : findComponent s.components name = none) :
    TasksKept s { s with components := insertComponent s.components { name := name, triggers := triggers } } := by
  refine ⟨rfl, rfl, fun other i n h => ?_⟩
  obtain ⟨c, trigger, hc, -⟩ := installedSize_some h
  have hne : name ≠ other := by
    rintro rfl
    rw [fresh] at hc
    cases hc
  unfold taskDependencies installedSize at h ⊢
  rw [findComponent_insertComponent hne]
  exact h

/-! ## Start -/

/-- The dependents that `Start` installs reach the triggers that it installs. -/
theorem startFirst_reaches {options : SchedulerOptions} {s t : State} (h : startFirst options s = .ok t) :
    ∀ dependent ∈ t.taskDependents, Reaches t.components dependent := by
  obtain ⟨-, -, -, -, graph, hgraph, rfl⟩ := startFirst_ok h
  have hsound := installTaskTriggers_sound hgraph
  intro dependent hd
  obtain ⟨state, hstate, hlt⟩ := hsound.covers dependent hd
  refine ⟨state.ready.length, ?_, hlt⟩
  have hname : ∃ c ∈ s.components, c.name = dependent.component := by
    have hmem := hsound.registered dependent hd
    rw [List.map_map] at hmem
    exact List.mem_map.mp hmem
  obtain ⟨c, hc⟩ : ∃ c, findComponent s.components dependent.component = some c := by
    obtain ⟨c, hmem, hname⟩ := hname
    exact Option.isSome_iff_exists.mp (List.find?_isSome.mpr ⟨c, hmem, by simpa using hname⟩)
  have hfound : findComponent (s.components.map fun c => { c with taskTriggers := graph.statesOf c.name })
      dependent.component = some { c with taskTriggers := graph.statesOf c.name } := by
    unfold findComponent at hc ⊢
    rw [List.find?_map]
    exact Option.map_eq_some_iff.mpr ⟨c, hc, rfl⟩
  simp only [taskDependencies, installedSize, hfound, Option.bind_some, findComponent_name hc, hstate, Option.map_some]

/-! ## Every run -/

structure InRange (s : State) : Prop where
  running : s.terminated = false
  reaches : ∀ dependent ∈ s.taskDependents, Reaches s.components dependent

theorem InRange.kept {s t : State} (h : InRange s) (hk : TasksKept s t) : InRange t := by
  refine ⟨hk.terminated.trans h.running, fun dependent hd => hk.reaches (h.reaches dependent ?_)⟩
  rw [← hk.dependents]
  exact hd

theorem step_inRange {options : SchedulerOptions} {s t : State} {move : Move} (h : InRange s)
    (hs : step options s move = some t) : InRange t := by
  have hsame : ∀ u : State, u.terminated = s.terminated → u.taskDependents = s.taskDependents →
      u.components = s.components → InRange u := by
    intro u h1 h2 h3
    exact h.kept ⟨h1, h2, by rw [h3]; exact fun _ _ _ hn => hn⟩
  cases transition_of_step hs with
  | register name triggers running stopping fresh => exact h.kept (register_tasksKept triggers fresh)
  | start first =>
    refine ⟨?_, startFirst_reaches first⟩
    obtain ⟨-, -, -, -, graph, -, rfl⟩ := startFirst_ok first
    exact h.running
  | @install op ops pc => exact h.kept (install_tasksKept s op ops)
  | installFails pc => exact hsame _ rfl rfl rfl
  | finishStart pc => exact hsame _ rfl rfl rfl
  | stop starting stopping running => exact hsame _ rfl rfl rfl
  | stopFromStart pc stopping running => exact hsame _ rfl rfl rfl
  | stopNotify pc => exact hsame _ rfl rfl rfl
  | stopClear pc joined => exact ⟨h.running, fun _ hd => (by cases hd)⟩
  | trigger found => exact hsame _ rfl rfl rfl
  | @enqueueCall k request choice call =>
    have hcalls : InRange { s with calls := s.calls.eraseIdx k } := hsame _ rfl rfl rfl
    exact hcalls.kept (enqueue_tasksKept _ request choice)
  | copyCallback reader => exact hsame _ rfl rfl rfl
  | @invokeCallback k callback choice copy =>
    have hcopies : InRange { s with inFlight := s.inFlight.eraseIdx k } := hsame _ rfl rfl rfl
    exact hcopies.kept (invoke_tasksKept _ callback choice)
  | timerExpires thread pc on => exact hsame _ rfl rfl rfl
  | timerStops thread pc off => exact hsame _ rfl rfl rfl
  | @timerEnqueues j timer choice thread pc =>
    have htimers : InRange (setTimer s j { timer with pc := .waiting }) := hsame _ rfl rfl rfl
    exact htimers.kept (enqueue_tasksKept _ timer.request choice)
  | workerBegins thread => exact hsame _ rfl rfl rfl
  | @workerDispatches i pc elapsed thread at_ => exact h.kept (dispatch_tasksKept options s i elapsed)
  | workerRetries thread => exact hsame _ rfl rfl rfl
  | workerWakes thread blocked => exact hsame _ rfl rfl rfl
  | @workerCompletes i event status choices thread => exact h.kept (complete_tasksKept h.reaches i event status choices)
  | workerLeaves thread => exact hsame _ rfl rfl rfl

theorem reach_inRange {options : SchedulerOptions} {s : State} (h : Reach (step options) anyMove IsInitial s) :
    InRange s := by
  refine h.invariant ?_ fun s move t hi _ hs => step_inRange hi hs
  intro s h
  obtain ⟨clock, rfl⟩ := h
  exact ⟨rfl, fun _ hd => (by cases hd)⟩

end PuppetMaster.Scheduler
