/-
  PuppetMaster.Scheduler.Carried — what becomes of a queued component and of a copied
  callback.

  A component leaves `queued_components` only to execute, and `executing_components` only
  when its execution ends (`step_carried`); the last section of `Stop` is the one
  exception. A copy of a service callback that is invoked while the scheduler runs leaves
  its component queued. No move forgets a registered component or its triggers
  (`step_specs`).
-/

import PuppetMaster.Scheduler.Bookkeeping

namespace PuppetMaster.Scheduler

open PuppetMaster.Core PuppetMaster.Lib

/-! ## Queueing only adds -/

/-- The spec a component was registered with. -/
def ScheduledComponent.spec (c : ScheduledComponent) : Name × List TriggerSpec := (c.name, c.triggers)

def specs (components : List ScheduledComponent) : List (Name × List TriggerSpec) :=
  components.map ScheduledComponent.spec

theorem specs_updateComponent (components : List ScheduledComponent) (name : Name)
    (f : ScheduledComponent → ScheduledComponent) (hf : ∀ c, (f c).spec = c.spec) :
    specs (updateComponent components name f) = specs components := by
  unfold specs updateComponent
  rw [List.map_map]
  refine List.map_congr_left fun c _ => ?_
  simp only [Function.comp_apply]
  split
  · exact hf c
  · rfl

/-- `t` is `s` after some queueing: nothing is dequeued, no execution begins or ends. -/
structure Grows (s t : State) : Prop where
  queued : ∀ c ∈ s.queuedComponents, c ∈ t.queuedComponents
  executing : t.executingComponents = s.executingComponents
  inFlight : t.inFlight = s.inFlight
  specs : specs t.components = specs s.components

theorem Grows.refl (s : State) : Grows s s := ⟨fun _ h => h, rfl, rfl, rfl⟩

theorem Grows.trans {s t u : State} (h : Grows s t) (h' : Grows t u) : Grows s u :=
  ⟨fun c hc => h'.queued c (h.queued c hc), h'.executing.trans h.executing, h'.inFlight.trans h.inFlight,
    h'.specs.trans h.specs⟩

theorem queueEvent_grows (s : State) (request : Request) (choice : Choice) :
    Grows s (queueEvent s request choice) := by
  unfold queueEvent
  split
  · exact ⟨fun _ h => h, rfl, rfl, rfl⟩
  · exact ⟨fun _ h => List.mem_cons_of_mem _ h, rfl, rfl, rfl⟩

theorem mem_queueEvent (s : State) (request : Request) (choice : Choice) :
    request.component ∈ (queueEvent s request choice).queuedComponents := by
  unfold queueEvent
  split
  · assumption
  · exact List.mem_cons_self

theorem propagate_grows (s : State) (dependents : List TaskDependent) (choices : List Choice) :
    Grows s (propagate s dependents choices) := by
  refine propagate_induct (P := Grows s) ?_ ?_ ?_ (Grows.refl s) dependents choices
  · exact fun u request choice h => h.trans (queueEvent_grows u request choice)
  · exact fun u name index trigger h =>
      h.trans ⟨fun _ h => h, rfl, rfl, specs_updateComponent _ _ _ fun _ => rfl⟩
  · exact fun u h => ⟨h.1, h.2, h.3, h.4⟩

theorem enqueue_grows (s : State) (request : Request) (choice : Choice) : Grows s (enqueue s request choice).1 := by
  unfold enqueue
  split
  · exact queueEvent_grows s request choice
  · exact Grows.refl s

theorem invoke_grows (s : State) (callback : Callback) (choice : Choice) : Grows s (invoke s callback choice) := by
  unfold invoke
  split
  · unfold onDataAvailable
    split
    · exact Grows.refl s
    · split
      · exact ⟨fun _ h => h, rfl, rfl, rfl⟩
      · have hnoted : ∀ index next, Grows s { s with
            components := setDataTrigger s.components callback.component index next
            effects := (callback.run, s.run) :: s.effects } := by
          intro index next
          exact ⟨fun _ h => h, rfl, rfl, specs_updateComponent _ _ _ fun _ => rfl⟩
        dsimp only
        split
        · exact (hnoted _ _).trans (queueEvent_grows _ _ _)
        · exact hnoted _ _
  · split
    · have hq := queueEvent_grows { s with effects := (callback.run, s.run) :: s.effects }
      exact ⟨(hq _ choice).queued, (hq _ choice).executing, (hq _ choice).inFlight, (hq _ choice).specs⟩
    · exact Grows.refl s

/-! ## One move -/

def Target.isService : Target → Bool
  | .service _ _ => true
  | .data _ _ => false

theorem invoke_queues {s : State} {callback : Callback} (choice : Choice) (hs : callback.target.isService = true)
    (ha : accepting s = true) : callback.component ∈ (invoke s callback choice).queuedComponents := by
  unfold invoke
  split
  · rename_i ht
    rw [ht] at hs
    cases hs
  · rw [if_pos ha]
    exact mem_queueEvent _ _ _

/-- The execution of `c` ends with this move. -/
def Ends (s : State) (c : Name) (move : Move) : Prop :=
  ∃ i status choices event, move = .workerCompletes i status choices ∧ s.workers[i]? = some (.executing event)
    ∧ event.component = c

/-- What a move makes of a queued component, of an executing one, and of a copied callback. -/
structure Carried (s : State) (move : Move) (t : State) : Prop where
  queued : ∀ c ∈ s.queuedComponents, c ∈ t.queuedComponents ∨ c ∉ s.executingComponents ∧ c ∈ t.executingComponents
  executing : ∀ c ∈ s.executingComponents, c ∈ t.executingComponents ∨ Ends s c move
  copies : accepting s = true → ∀ callback ∈ s.inFlight, callback.target.isService = true →
    callback ∈ t.inFlight ∨ callback.component ∈ t.queuedComponents

variable {options : SchedulerOptions} {s t : State} {move : Move}

theorem Carried.of_subset (hqueued : ∀ c ∈ s.queuedComponents, c ∈ t.queuedComponents)
    (hexecuting : t.executingComponents = s.executingComponents) (hcopies : ∀ c ∈ s.inFlight, c ∈ t.inFlight) :
    Carried s move t :=
  ⟨fun c hc => .inl (hqueued c hc), fun _ hc => .inl (hexecuting ▸ hc), fun _ c hc _ => .inl (hcopies c hc)⟩

/-- Queueing from a state that differs from `s` in nothing that matters here. -/
theorem Grows.carried {u : State} (h : Grows u t) (hqueued : u.queuedComponents = s.queuedComponents)
    (hexecuting : u.executingComponents = s.executingComponents) (hcopies : u.inFlight = s.inFlight) :
    Carried s move t := by
  refine .of_subset ?_ (h.executing.trans hexecuting) ?_
  · rw [← hqueued]
    exact h.queued
  · rw [← hcopies, h.inFlight]
    exact fun _ hc => hc

theorem install_grows (s : State) (op : InstallOp) (ops : List InstallOp) :
    Grows s { install s op with start := .installing ops } := by
  cases op with
  | spawnWorker => exact ⟨fun _ h => h, rfl, rfl, rfl⟩
  | pushDataTrigger name trigger => exact ⟨fun _ h => h, rfl, rfl, specs_updateComponent _ _ _ fun _ => rfl⟩
  | setDataCallback name topic => exact ⟨fun _ h => h, rfl, rfl, rfl⟩
  | setServiceCallback name deadline priority => exact ⟨fun _ h => h, rfl, rfl, rfl⟩
  | pushReader name => exact ⟨fun _ h => h, rfl, rfl, specs_updateComponent _ _ _ fun _ => rfl⟩
  | spawnTimer request => exact ⟨fun _ h => h, rfl, rfl, rfl⟩

/-- A worker takes the component it dequeues. -/
theorem dispatch_carried (options : SchedulerOptions) (s : State) (i elapsed : Nat) :
    Carried s move (dispatch options s i elapsed) := by
  unfold dispatch
  split
  · exact .of_subset (fun _ h => h) rfl fun _ h => h
  · split
    · exact .of_subset (fun _ h => h) rfl fun _ h => h
    · dsimp only
      split
      · exact .of_subset (fun _ h => h) rfl fun _ h => h
      · rename_i index event hselected
        refine ⟨fun c hc => ?_, fun c hc => .inl (List.mem_cons_of_mem _ hc), fun _ c hc _ => .inl hc⟩
        by_cases he : c = event.component
        · subst he
          exact .inr ⟨(selectEvent_some hselected).2, List.mem_cons_self⟩
        · exact .inl (List.mem_filter.mpr ⟨hc, by simpa using he⟩)

theorem complete_carried {i : Nat} {event : Event} (status : Status) (choices : List Choice)
    (hi : s.workers[i]? = some (.executing event)) :
    Carried s (.workerCompletes i status choices) (complete s i event status choices) := by
  have hfinish : Grows (finish s i event status) (complete s i event status choices) := by
    unfold complete
    split
    · exact propagate_grows _ _ _
    · exact Grows.refl _
  refine ⟨fun c hc => .inl (hfinish.queued c hc), fun c hc => ?_, fun _ c hc _ => .inl (hfinish.inFlight ▸ hc)⟩
  by_cases he : c = event.component
  · exact .inr ⟨i, status, choices, event, rfl, hi, he.symm⟩
  · rw [hfinish.executing]
    exact .inl (List.mem_filter.mpr ⟨hc, by simpa using he⟩)

theorem invokeCallback_carried {k : Nat} {callback : Callback} (choice : Choice)
    (hk : s.inFlight[k]? = some callback) :
    Carried s move (invoke { s with inFlight := s.inFlight.eraseIdx k } callback choice) := by
  have hg : Grows { s with inFlight := s.inFlight.eraseIdx k }
      (invoke { s with inFlight := s.inFlight.eraseIdx k } callback choice) := invoke_grows _ callback choice
  refine ⟨fun c hc => .inl (hg.queued c hc), fun c hc => .inl ?_, fun ha other hother hservice => ?_⟩
  · rw [hg.executing]
    exact hc
  by_cases he : other = callback
  · subst he
    exact .inr (invoke_queues choice hservice ha)
  · obtain ⟨j, hj⟩ := List.mem_iff_getElem?.mp hother
    have hne : j ≠ k := by
      rintro rfl
      exact he (Option.some.inj (hj.symm.trans hk))
    rw [hg.inFlight]
    exact .inl (List.mem_eraseIdx_iff_getElem?.mpr ⟨j, hne, hj⟩)

theorem step_carried (hs : step options s move = some t) (hclear : move ≠ .stopClear) : Carried s move t := by
  cases transition_of_step hs with
  | register name triggers => exact .of_subset (fun _ h => h) rfl fun _ h => h
  | start first =>
    obtain ⟨-, -, -, -, graph, -, rfl⟩ := startFirst_ok first
    exact .of_subset (fun _ h => h) rfl fun _ h => h
  | install pc => exact (install_grows _ _ _).carried rfl rfl rfl
  | installFails pc => exact .of_subset (fun _ h => h) rfl fun _ h => h
  | finishStart pc => exact .of_subset (fun _ h => h) rfl fun _ h => h
  | stop starting stopping running => exact .of_subset (fun _ h => h) rfl fun _ h => h
  | stopFromStart pc stopping running => exact .of_subset (fun _ h => h) rfl fun _ h => h
  | stopNotify pc => exact .of_subset (fun _ h => h) rfl fun _ h => h
  | stopClear pc hj => exact absurd rfl hclear
  | trigger found => exact .of_subset (fun _ h => h) rfl fun _ h => h
  | enqueueCall choice call => exact (enqueue_grows _ _ choice).carried rfl rfl rfl
  | copyCallback reader => exact .of_subset (fun _ h => h) rfl fun _ h => List.mem_append_left _ h
  | invokeCallback choice copy => exact invokeCallback_carried choice copy
  | timerExpires thread => exact .of_subset (fun _ h => h) rfl fun _ h => h
  | timerStops thread => exact .of_subset (fun _ h => h) rfl fun _ h => h
  | timerEnqueues choice thread => exact (enqueue_grows _ _ choice).carried rfl rfl rfl
  | workerBegins thread => exact .of_subset (fun _ h => h) rfl fun _ h => h
  | workerDispatches elapsed thread at_ => exact dispatch_carried _ _ _ _
  | workerRetries thread => exact .of_subset (fun _ h => h) rfl fun _ h => h
  | workerWakes thread => exact .of_subset (fun _ h => h) rfl fun _ h => h
  | workerCompletes status choices thread => exact complete_carried status choices thread
  | workerLeaves thread => exact .of_subset (fun _ h => h) rfl fun _ h => h

/-! ## What is registered, and the lifecycle -/

theorem complete_specs (s : State) (i : Nat) (event : Event) (status : Status) (choices : List Choice) :
    specs (complete s i event status choices).components = specs s.components := by
  unfold complete
  split
  · exact (propagate_grows _ _ _).specs
  · rfl

theorem dispatch_components (options : SchedulerOptions) (s : State) (i elapsed : Nat) :
    (dispatch options s i elapsed).components = s.components := by
  unfold dispatch
  split
  · rfl
  · split
    · rfl
    · dsimp only
      split
      · rfl
      · rfl

theorem specs_insertComponent {components : List ScheduledComponent} (c : ScheduledComponent)
    {spec : Name × List TriggerSpec} (h : spec ∈ specs components) : spec ∈ specs (insertComponent components c) := by
  unfold specs at h ⊢
  obtain ⟨d, hd, rfl⟩ := List.mem_map.mp h
  refine List.mem_map_of_mem ?_
  rw [← List.takeWhile_append_dropWhile (p := fun d => decide (d.name < c.name)) (l := components)] at hd
  unfold insertComponent
  rcases List.mem_append.mp hd with hd | hd
  · exact List.mem_append_left _ hd
  · exact List.mem_append_right _ (List.mem_cons_of_mem _ hd)

theorem specs_map (components : List ScheduledComponent) (f : ScheduledComponent → ScheduledComponent)
    (hf : ∀ c, (f c).spec = c.spec) : specs (components.map f) = specs components := by
  unfold specs
  rw [List.map_map]
  exact List.map_congr_left fun c _ => hf c

/-- A component stays registered, with the triggers it was registered with. -/
theorem step_specs (hs : step options s move = some t) :
    ∀ spec ∈ specs s.components, spec ∈ specs t.components := by
  intro spec hspec
  cases transition_of_step hs with
  | register name triggers => exact specs_insertComponent _ hspec
  | start first =>
    obtain ⟨-, -, -, -, graph, -, rfl⟩ := startFirst_ok first
    rw [specs_map]
    · exact hspec
    · exact fun _ => rfl
  | install pc => rwa [(install_grows _ _ _).specs]
  | stopClear pc hj =>
    unfold stopClear
    rw [specs_map]
    · exact hspec
    · exact fun _ => rfl
  | enqueueCall choice call => rwa [(enqueue_grows _ _ choice).specs]
  | invokeCallback choice copy => rwa [(invoke_grows _ _ choice).specs]
  | timerEnqueues choice thread => rwa [(enqueue_grows _ _ choice).specs]
  | workerDispatches elapsed thread at_ => rwa [dispatch_components]
  | workerCompletes status choices thread => rwa [complete_specs]
  | _ => exact hspec

/-- The moves of the callers in `Start` and `Stop`. -/
def Move.isLifecycle : Move → Bool
  | .start => true
  | .install => true
  | .installFails => true
  | .finishStart => true
  | .stop => true
  | .stopFromStart => true
  | .stopNotify => true
  | .stopClear => true
  | _ => false

/-- The flags and the callers in `Start` and `Stop` are where they were. -/
structure Steady (s t : State) : Prop where
  running : t.running = s.running
  starting : t.starting = s.starting
  start : t.start = s.start
  stop : t.stop = s.stop
  run : t.run = s.run

theorem Steady.after {u : State} (h : Steady t u) (h' : Steady s t) : Steady s u :=
  ⟨h.running.trans h'.running, h.starting.trans h'.starting, h.start.trans h'.start, h.stop.trans h'.stop,
    h.run.trans h'.run⟩

theorem QueueFrame.steady (h : QueueFrame s t) : Steady s t := ⟨h.running, h.starting, h.start, h.stop, h.run⟩

theorem enqueue_steady (s : State) (request : Request) (choice : Choice) : Steady s (enqueue s request choice).1 := by
  unfold enqueue
  split
  · exact (queueEvent_frame s request choice).steady
  · exact ⟨rfl, rfl, rfl, rfl, rfl⟩

theorem invoke_steady (s : State) (callback : Callback) (choice : Choice) : Steady s (invoke s callback choice) := by
  refine invoke_induct callback choice ⟨rfl, rfl, rfl, rfl, rfl⟩ (fun _ _ _ _ => ⟨rfl, rfl, rfl, rfl, rfl⟩) ?_
  intro components effects faults request _
  exact (queueEvent_frame _ request choice).steady.after ⟨rfl, rfl, rfl, rfl, rfl⟩

theorem dispatch_steady (options : SchedulerOptions) (s : State) (i elapsed : Nat) :
    Steady s (dispatch options s i elapsed) := by
  unfold dispatch
  split
  · exact ⟨rfl, rfl, rfl, rfl, rfl⟩
  · split
    · exact ⟨rfl, rfl, rfl, rfl, rfl⟩
    · dsimp only
      split
      · exact ⟨rfl, rfl, rfl, rfl, rfl⟩
      · exact ⟨rfl, rfl, rfl, rfl, rfl⟩

theorem complete_steady (s : State) (i : Nat) (event : Event) (status : Status) (choices : List Choice) :
    Steady s (complete s i event status choices) := by
  unfold complete
  split
  · exact (propagate_frame _ _ choices).steady.after ⟨rfl, rfl, rfl, rfl, rfl⟩
  · exact ⟨rfl, rfl, rfl, rfl, rfl⟩

theorem step_steady (hs : step options s move = some t) (hmove : move.isLifecycle = false) : Steady s t := by
  cases transition_of_step hs with
  | enqueueCall choice call => exact (enqueue_steady _ _ choice).after ⟨rfl, rfl, rfl, rfl, rfl⟩
  | invokeCallback choice copy => exact (invoke_steady _ _ choice).after ⟨rfl, rfl, rfl, rfl, rfl⟩
  | timerEnqueues choice thread => exact (enqueue_steady _ _ choice).after ⟨rfl, rfl, rfl, rfl, rfl⟩
  | workerDispatches elapsed thread at_ => exact dispatch_steady _ _ _ _
  | workerCompletes status choices thread => exact complete_steady _ _ _ _ _
  | register name triggers => exact ⟨rfl, rfl, rfl, rfl, rfl⟩
  | trigger found => exact ⟨rfl, rfl, rfl, rfl, rfl⟩
  | copyCallback reader => exact ⟨rfl, rfl, rfl, rfl, rfl⟩
  | timerExpires thread => exact ⟨rfl, rfl, rfl, rfl, rfl⟩
  | timerStops thread => exact ⟨rfl, rfl, rfl, rfl, rfl⟩
  | workerBegins thread => exact ⟨rfl, rfl, rfl, rfl, rfl⟩
  | workerRetries thread => exact ⟨rfl, rfl, rfl, rfl, rfl⟩
  | workerWakes thread => exact ⟨rfl, rfl, rfl, rfl, rfl⟩
  | workerLeaves thread => exact ⟨rfl, rfl, rfl, rfl, rfl⟩
  | _ => cases hmove

theorem install_steady (s : State) (op : InstallOp) :
    (install s op).running = s.running ∧ (install s op).stop = s.stop ∧ (install s op).run = s.run := by
  cases op with
  | _ => exact ⟨rfl, rfl, rfl⟩

/-- Only `Start` begins another run. -/
theorem step_run (hs : step options s move = some t) (hmove : move ≠ .start) : t.run = s.run := by
  by_cases hl : move.isLifecycle = false
  · exact (step_steady hs hl).run
  cases transition_of_step hs with
  | start first => exact absurd rfl hmove
  | install pc => exact (install_steady _ _).2.2
  | installFails pc => rfl
  | finishStart pc => rfl
  | stop starting stopping running => rfl
  | stopFromStart pc stopping running => rfl
  | stopNotify pc => rfl
  | stopClear pc hj => rfl
  | _ => exact absurd rfl hl

end PuppetMaster.Scheduler
