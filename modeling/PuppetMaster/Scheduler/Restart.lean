/-
  PuppetMaster.Scheduler.Restart — notifications across restarts.

  A callback carries the indices `InstallDataTriggers` gave it, and the transport may
  invoke a copy of it at any later time. `OnDataAvailable` asks only whether the scheduler
  is running, which a restarted scheduler is before its triggers are installed. So a copy
  made before a `Stop` can find no trigger under its index in the next run, or find the
  next run's trigger there. `noStale` is the condition that keeps this out: a copy is
  invoked while a run accepts events only if it was made in that run.

  `Wired`: the callbacks of the current run point at triggers that are installed
  (`installedFor`), and so does every callback the plan of `Start` has still to set
  (`PlanOk`); `Quietly` says that a move touches nothing of this.
-/

import PuppetMaster.Scheduler.Bookkeeping

namespace PuppetMaster.Scheduler

open PuppetMaster.Core PuppetMaster.Lib

/-! ## Lookups -/

/-- How many dependencies the trigger has that stands under that index, among the data or the task triggers. -/
def installedSize (triggers : ScheduledComponent → List TriggerState) (components : List ScheduledComponent)
    (name : Name) (index : Nat) : Option Nat :=
  (findComponent components name).bind fun c => ((triggers c)[index]?).map fun trigger => trigger.ready.length

def dependencies (components : List ScheduledComponent) (name : Name) (index : Nat) : Option Nat :=
  installedSize ScheduledComponent.dataTriggers components name index

theorem findComponent_updateComponent {f : ScheduledComponent → ScheduledComponent} (hf : ∀ c, (f c).name = c.name)
    (components : List ScheduledComponent) (name other : Name) :
    findComponent (updateComponent components name f) other
      = (findComponent components other).map fun c => if c.name = name then f c else c := by
  unfold findComponent updateComponent
  rw [List.find?_map]
  congr 2
  funext c
  by_cases hc : c.name = name
  · simp [hc, hf]
  · simp [hc]

theorem findComponent_name {components : List ScheduledComponent} {name : Name} {c : ScheduledComponent}
    (h : findComponent components name = some c) : c.name = name := by
  simpa using List.find?_some h

theorem installedSize_some {triggers : ScheduledComponent → List TriggerState} {components : List ScheduledComponent}
    {name : Name} {index n : Nat} (h : installedSize triggers components name index = some n) :
    ∃ c trigger, findComponent components name = some c ∧ (triggers c)[index]? = some trigger
      ∧ trigger.ready.length = n := by
  obtain ⟨c, hc, h⟩ := Option.bind_eq_some_iff.mp h
  obtain ⟨trigger, ht, hn⟩ := Option.map_eq_some_iff.mp h
  exact ⟨c, trigger, hc, ht, hn⟩

/-- An update that keeps the installed triggers keeps what the indices find. -/
theorem installedSize_updateComponent {triggers : ScheduledComponent → List TriggerState}
    {f : ScheduledComponent → ScheduledComponent} (hf : ∀ c, (f c).name = c.name)
    {components : List ScheduledComponent} {name : Name}
    (hkeep : ∀ c, findComponent components name = some c → ∀ (i : Nat) (trigger : TriggerState),
      (triggers c)[i]? = some trigger →
        ∃ next : TriggerState, (triggers (f c))[i]? = some next ∧ next.ready.length = trigger.ready.length)
    {other : Name} {index n : Nat} (h : installedSize triggers components other index = some n) :
    installedSize triggers (updateComponent components name f) other index = some n := by
  obtain ⟨c, trigger, hc, ht, hn⟩ := installedSize_some h
  unfold installedSize
  rw [findComponent_updateComponent hf, hc]
  simp only [Option.map_some, Option.bind_some]
  split
  · rename_i hname
    have hother : other = name := (findComponent_name hc).symm.trans hname
    obtain ⟨next, hnext, hlen⟩ := hkeep c (hother ▸ hc) index trigger ht
    simp [hnext, hlen, hn]
  · simp [ht, hn]

/-- Replacing a trigger by one of its size. -/
theorem sizes_set {triggers : List TriggerState} {index : Nat} {trigger next : TriggerState}
    (ht : triggers[index]? = some trigger) (hlen : next.ready.length = trigger.ready.length) {i : Nat}
    {found : TriggerState} (hfound : triggers[i]? = some found) :
    ∃ next' : TriggerState, (triggers.set index next)[i]? = some next' ∧ next'.ready.length = found.ready.length := by
  by_cases hi : index = i
  · subst hi
    cases ht.symm.trans hfound
    refine ⟨next, ?_, hlen⟩
    obtain ⟨hlt, -⟩ := List.getElem?_eq_some_iff.mp ht
    simp [hlt]
  · exact ⟨found, by simpa [hi] using hfound, rfl⟩

theorem isSome_findComponent_updateComponent {f : ScheduledComponent → ScheduledComponent}
    (hf : ∀ c, (f c).name = c.name) (components : List ScheduledComponent) (name other : Name) :
    (findComponent (updateComponent components name f) other).isSome = (findComponent components other).isSome := by
  rw [findComponent_updateComponent hf, Option.isSome_map]

/-- With the trigger installed and the topic among its dependencies, every lookup is in range. -/
theorem lookupData_isSome {s : State} {name : Name} {triggerIndex topicIndex n : Nat}
    (h : dependencies s.components name triggerIndex = some n) (hn : topicIndex < n) :
    ∃ trigger next queue, lookupData s name triggerIndex topicIndex = some (trigger, next, queue) := by
  obtain ⟨c, trigger, hc, ht, rfl⟩ := installedSize_some h
  obtain ⟨next, queue, hnotify⟩ := TriggerState.notify_isSome hn
  exact ⟨trigger, next, queue, by simp [lookupData, hc, ht, hnotify]⟩

theorem lookupData_some {s : State} {name : Name} {triggerIndex topicIndex : Nat} {trigger next : TriggerState}
    {queue : Bool} (h : lookupData s name triggerIndex topicIndex = some (trigger, next, queue)) :
    ∃ c, findComponent s.components name = some c ∧ c.dataTriggers[triggerIndex]? = some trigger
      ∧ next.ready.length = trigger.ready.length := by
  simp only [lookupData, Option.bind_eq_bind, Option.bind_eq_some_iff] at h
  obtain ⟨c, hc, found, ht, ⟨n, q⟩, hnotify, heq⟩ := h
  cases heq
  exact ⟨c, hc, ht, TriggerState.notify_ready_length hnotify⟩

/-! ## Moves that leave the wiring alone -/

/-- A callback that can still be invoked: copied already, or set on a reader. -/
def Alive (s : State) (callback : Callback) : Prop := callback ∈ s.inFlight ∨ callback ∈ readers s

/-- `t` has no new callback, and differs from `s` in nothing that a callback of the run depends on. -/
structure Quietly (s t : State) : Prop where
  run : t.run = s.run
  running : t.running = s.running
  start : t.start = s.start
  triggerIndex : t.triggerIndex = s.triggerIndex
  alive : ∀ callback, Alive t callback → Alive s callback
  faults : t.faults = s.faults
  effects : t.effects = s.effects
  dependencies : ∀ name i n, dependencies s.components name i = some n → dependencies t.components name i = some n
  known : ∀ name, (findComponent s.components name).isSome = true → (findComponent t.components name).isSome = true

theorem Quietly.refl (s : State) : Quietly s s :=
  ⟨rfl, rfl, rfl, rfl, fun _ h => h, rfl, rfl, fun _ _ _ h => h, fun _ h => h⟩

theorem Quietly.trans {s t u : State} (h : Quietly s t) (h' : Quietly t u) : Quietly s u :=
  ⟨h'.run.trans h.run, h'.running.trans h.running, h'.start.trans h.start, h'.triggerIndex.trans h.triggerIndex,
    fun callback ha => h.alive callback (h'.alive callback ha), h'.faults.trans h.faults, h'.effects.trans h.effects,
    fun name i n hd => h'.dependencies name i n (h.dependencies name i n hd),
    fun name hk => h'.known name (h.known name hk)⟩

theorem queueEvent_quietly (s : State) (request : Request) (choice : Choice) :
    Quietly s (queueEvent s request choice) := by
  unfold queueEvent
  split
  · exact ⟨rfl, rfl, rfl, rfl, fun _ h => h, rfl, rfl, fun _ _ _ h => h, fun _ h => h⟩
  · exact ⟨rfl, rfl, rfl, rfl, fun _ h => h, rfl, rfl, fun _ _ _ h => h, fun _ h => h⟩

theorem flatMap_updateComponent {α : Type} {g : ScheduledComponent → List α}
    {f : ScheduledComponent → ScheduledComponent} (hg : ∀ c, g (f c) = g c) (components : List ScheduledComponent)
    (name : Name) : (updateComponent components name f).flatMap g = components.flatMap g := by
  unfold updateComponent
  rw [List.flatMap_map]
  congr 1
  funext c
  split
  · exact hg c
  · rfl

theorem updateComponent_quietly {s : State} {name : Name} {f : ScheduledComponent → ScheduledComponent}
    (hname : ∀ c, (f c).name = c.name) (hreaders : ∀ c, (f c).dataTriggerReaders = c.dataTriggerReaders)
    (hkeep : ∀ c, findComponent s.components name = some c → ∀ (i : Nat) (trigger : TriggerState),
      c.dataTriggers[i]? = some trigger →
        ∃ next : TriggerState, (f c).dataTriggers[i]? = some next ∧ next.ready.length = trigger.ready.length) :
    Quietly s { s with components := updateComponent s.components name f } := by
  refine ⟨rfl, rfl, rfl, rfl, fun callback ha => ?_, rfl, rfl,
    fun other i n h => installedSize_updateComponent hname hkeep h,
    fun other h => (isSome_findComponent_updateComponent hname _ name other).trans h⟩
  unfold Alive readers at ha ⊢
  rwa [flatMap_updateComponent hreaders] at ha

theorem setTaskTrigger_quietly (s : State) (name : Name) (index : Nat) (trigger : TriggerState) :
    Quietly s { s with components := setTaskTrigger s.components name index trigger } :=
  updateComponent_quietly (fun _ => rfl) (fun _ => rfl) fun _ _ _ trigger ht => ⟨trigger, ht, rfl⟩

/-- Noting a dependency keeps the trigger and its size. -/
theorem setDataTrigger_quietly {s : State} {name : Name} {triggerIndex topicIndex : Nat} {trigger next : TriggerState}
    {queue : Bool} (h : lookupData s name triggerIndex topicIndex = some (trigger, next, queue)) :
    Quietly s { s with components := setDataTrigger s.components name triggerIndex next } := by
  refine updateComponent_quietly (fun _ => rfl) (fun _ => rfl) ?_
  obtain ⟨c, hc, ht, hlen⟩ := lookupData_some h
  intro d hd i found hfound
  cases hc.symm.trans hd
  exact sizes_set ht hlen hfound

theorem propagate_quietly (s : State) (dependents : List TaskDependent) (choices : List Choice) :
    Quietly s (propagate s dependents choices) := by
  refine propagate_induct (P := Quietly s) ?_ ?_ ?_ (Quietly.refl s) dependents choices
  · exact fun u request choice h => h.trans (queueEvent_quietly u request choice)
  · exact fun u name index trigger h => h.trans (setTaskTrigger_quietly u name index trigger)
  · exact fun u h => ⟨h.1, h.2, h.3, h.4, h.5, h.6, h.7, h.8, h.9⟩

theorem enqueue_quietly (s : State) (request : Request) (choice : Choice) :
    Quietly s (enqueue s request choice).1 := by
  unfold enqueue
  split
  · exact queueEvent_quietly s request choice
  · exact Quietly.refl s

theorem dispatch_quietly (options : SchedulerOptions) (s : State) (i elapsed : Nat) :
    Quietly s (dispatch options s i elapsed) := by
  unfold dispatch
  split
  · exact ⟨rfl, rfl, rfl, rfl, fun _ h => h, rfl, rfl, fun _ _ _ h => h, fun _ h => h⟩
  · split
    · exact ⟨rfl, rfl, rfl, rfl, fun _ h => h, rfl, rfl, fun _ _ _ h => h, fun _ h => h⟩
    · dsimp only
      split
      · exact ⟨rfl, rfl, rfl, rfl, fun _ h => h, rfl, rfl, fun _ _ _ h => h, fun _ h => h⟩
      · exact ⟨rfl, rfl, rfl, rfl, fun _ h => h, rfl, rfl, fun _ _ _ h => h, fun _ h => h⟩

theorem complete_quietly (s : State) (i : Nat) (event : Event) (status : Status) (choices : List Choice) :
    Quietly s (complete s i event status choices) := by
  have hfinish : Quietly s (finish s i event status) :=
    ⟨rfl, rfl, rfl, rfl, fun _ h => h, rfl, rfl, fun _ _ _ h => h, fun _ h => h⟩
  unfold complete
  split
  · exact hfinish.trans (propagate_quietly _ _ _)
  · exact hfinish

/-! ## The wiring of a run -/

/-- The trigger a data callback points at is installed and has the topic. -/
def installedFor (components : List ScheduledComponent) (callback : Callback) : Prop :=
  ∀ triggerIndex topicIndex, callback.target = .data triggerIndex topicIndex →
    ∃ n, dependencies components callback.component triggerIndex = some n ∧ topicIndex < n

/--
The rest of a plan, after the trigger `last` (component, number of topics) was pushed: each
data callback is for the trigger pushed last and one of its topics.
-/
def PlanOk : Option (Name × Nat) → List InstallOp → Prop
  | _, [] => True
  | _, .pushDataTrigger name trigger :: ops => PlanOk (some (name, trigger.dataDependencies.length)) ops
  | last, .setDataCallback name topic :: ops => (∃ n, last = some (name, n) ∧ topic < n) ∧ PlanOk last ops
  | last, _ :: ops => PlanOk last ops

theorem planOk_topics {name : Name} {n : Nat} {rest : List InstallOp} (hrest : ∀ last, PlanOk last rest)
    (topics : List Nat) (h : ∀ topic ∈ topics, topic < n) :
    PlanOk (some (name, n))
      (topics.flatMap (fun topic => [.setDataCallback name topic, .pushReader name]) ++ rest) := by
  induction topics with
  | nil => exact hrest _
  | cons topic topics ih =>
    exact ⟨⟨n, rfl, h topic (by simp)⟩, ih fun topic' h' => h topic' (List.mem_cons_of_mem _ h')⟩

theorem planOk_dataOps {rest : List InstallOp} (hrest : ∀ last, PlanOk last rest) (name : Name) (trigger : TriggerSpec)
    (last : Option (Name × Nat)) : PlanOk last (dataOps name trigger ++ rest) := by
  unfold dataOps
  split
  · exact planOk_topics hrest _ fun topic h => List.mem_range.mp h
  · exact hrest last

/-- Operations that neither push a trigger nor set a data callback can stand anywhere. -/
def Plain (op : InstallOp) : Prop := ∀ last ops, PlanOk last ops → PlanOk last (op :: ops)

theorem planOk_plain {ops rest : List InstallOp} (hplain : ∀ op ∈ ops, Plain op) (hrest : ∀ last, PlanOk last rest)
    (last : Option (Name × Nat)) : PlanOk last (ops ++ rest) := by
  induction ops with
  | nil => exact hrest last
  | cons op ops ih => exact hplain op (by simp) _ _ (ih fun op' h => hplain op' (List.mem_cons_of_mem _ h))

theorem planOk_flatMap {α : Type} {f : α → List InstallOp} {rest : List InstallOp}
    (hf : ∀ a, ∀ rest, (∀ last, PlanOk last rest) → ∀ last, PlanOk last (f a ++ rest))
    (hrest : ∀ last, PlanOk last rest) (l : List α) (last : Option (Name × Nat)) : PlanOk last (l.flatMap f ++ rest) := by
  induction l generalizing last with
  | nil => exact hrest last
  | cons a l ih =>
    rw [List.flatMap_cons, List.append_assoc]
    exact hf a _ ih last

theorem planOk_installPlan (options : SchedulerOptions) (components : List ScheduledComponent) :
    PlanOk none (installPlan options components) := by
  have hnil : ∀ last, PlanOk last [] := fun _ => trivial
  have hservice : ∀ name trigger, ∀ op ∈ serviceOps name trigger, Plain op := by
    intro name trigger op hop
    unfold serviceOps at hop
    split at hop
    · obtain ⟨_, -, hop⟩ := List.mem_flatMap.mp hop
      simp only [List.mem_cons, List.not_mem_nil, or_false] at hop
      rcases hop with rfl | rfl
      · exact fun _ _ h => h
      · exact fun _ _ h => h
    · cases hop
  have htimer : ∀ name trigger, ∀ op ∈ timerOps name trigger, Plain op := by
    intro name trigger op hop
    unfold timerOps at hop
    split at hop
    · cases List.mem_singleton.mp hop
      exact fun _ _ h => h
    · cases hop
  have hspawn : ∀ op ∈ List.replicate options.workerCount InstallOp.spawnWorker, Plain op := by
    intro op hop
    cases (List.mem_replicate.mp hop).2
    exact fun _ _ h => h
  unfold installPlan
  rw [List.append_assoc, List.append_assoc]
  refine planOk_plain hspawn (planOk_flatMap ?_ (planOk_flatMap ?_ ?_ components) components) none
  · exact fun c rest hrest => planOk_flatMap (fun trigger rest hrest => planOk_dataOps hrest c.name trigger) hrest _
  · exact fun c rest hrest =>
      planOk_flatMap (fun trigger rest hrest => planOk_plain (hservice c.name trigger) hrest) hrest _
  · intro last
    rw [← List.append_nil (components.flatMap fun c => c.triggers.flatMap (timerOps c.name))]
    refine planOk_flatMap ?_ hnil components last
    exact fun c rest hrest =>
      planOk_flatMap (fun trigger rest hrest => planOk_plain (htimer c.name trigger) hrest) hrest _

/-- No lookup was out of range, and no notification took effect in a run other than its own. -/
def Isolated (s : State) : Prop := s.faults = 0 ∧ ∀ p ∈ s.effects, p.1 = p.2

/-- While events are accepted, a copied callback is invoked in the run it was installed in. -/
def noStale (s : State) (move : Move) : Prop :=
  ∀ k choice callback, move = .invokeCallback k choice → s.inFlight[k]? = some callback → accepting s = true →
    callback.run = s.run

structure Wired (s : State) : Prop where
  past : ∀ callback, Alive s callback → callback.run ≤ s.run
  installed : s.running = true → ∀ callback, Alive s callback → callback.run = s.run →
    installedFor s.components callback
  plan : ∀ ops, s.start = .installing ops →
    (∃ last, PlanOk last ops ∧ ∀ name n, last = some (name, n) → dependencies s.components name s.triggerIndex = some n)
      ∧ ∀ name trigger, .pushDataTrigger name trigger ∈ ops → (findComponent s.components name).isSome = true
  isolated : Isolated s

variable {options : SchedulerOptions} {s t : State}

theorem installedFor.mono {components components' : List ScheduledComponent} {callback : Callback}
    (h : installedFor components callback)
    (hd : ∀ name i n, dependencies components name i = some n → dependencies components' name i = some n) :
    installedFor components' callback := by
  intro triggerIndex topicIndex htarget
  obtain ⟨n, hn, hlt⟩ := h triggerIndex topicIndex htarget
  exact ⟨n, hd _ _ _ hn, hlt⟩

theorem Wired.quietly (h : Wired s) (q : Quietly s t) : Wired t := by
  refine ⟨fun callback ha => ?_, fun hr callback ha hrun => ?_, fun ops hops => ?_, ?_⟩
  · rw [q.run]
    exact h.past callback (q.alive callback ha)
  · rw [q.running] at hr
    rw [q.run] at hrun
    exact (h.installed hr callback (q.alive callback ha) hrun).mono q.dependencies
  · rw [q.start] at hops
    obtain ⟨⟨last, hp, hl⟩, hk⟩ := h.plan ops hops
    rw [q.triggerIndex]
    exact ⟨⟨last, hp, fun name n heq => q.dependencies _ _ _ (hl name n heq)⟩,
      fun name trigger hmem => q.known name (hk name trigger hmem)⟩
  · exact ⟨q.faults.trans h.isolated.1, by rw [q.effects]; exact h.isolated.2⟩

/-- The installation is over, or the run is. -/
theorem Wired.leave (h : Wired s) (hrun : t.run = s.run) (halive : ∀ callback, Alive t callback → Alive s callback)
    (hkeep : t.running = true → s.running = true ∧ t.components = s.components)
    (hstart : ∀ ops, t.start ≠ .installing ops) (hfaults : t.faults = s.faults) (heffects : t.effects = s.effects) :
    Wired t := by
  refine ⟨fun callback ha => ?_, fun hr callback ha hc => ?_, fun ops hops => absurd hops (hstart ops), ?_⟩
  · rw [hrun]
    exact h.past callback (halive callback ha)
  · obtain ⟨hr, hcomponents⟩ := hkeep hr
    rw [hrun] at hc
    rw [hcomponents]
    exact h.installed hr callback (halive callback ha) hc
  · exact ⟨hfaults.trans h.isolated.1, by rw [heffects]; exact h.isolated.2⟩

/-! ## Start installs -/

theorem mem_readers {callback : Callback} :
    callback ∈ readers s ↔ s.reader = some callback ∨ ∃ c ∈ s.components, callback ∈ c.dataTriggerReaders := by
  unfold readers
  rw [List.mem_append, Option.mem_toList, List.mem_flatMap]

/-- Creating a reader adds its callback, and drops the one before it. -/
theorem alive_reader {callback new : Callback} (h : Alive { s with reader := some new } callback) :
    callback = new ∨ Alive s callback := by
  rcases h with h | h
  · exact .inr (.inl h)
  · rcases mem_readers.mp h with heq | hmem
    · exact .inl (Option.some.inj heq).symm
    · exact .inr (.inr (mem_readers.mpr (.inr hmem)))

theorem pushTrigger_dependencies {name other : Name} {trigger : TriggerSpec} {i n : Nat}
    (h : dependencies s.components other i = some n) :
    dependencies (pushTrigger s name trigger).components other i = some n := by
  refine installedSize_updateComponent (f := addDataTrigger trigger) (fun _ => rfl) ?_ h
  intro c _ i found hfound
  obtain ⟨hlt, -⟩ := List.getElem?_eq_some_iff.mp hfound
  exact ⟨found, by simpa [addDataTrigger, List.getElem?_append_left hlt] using hfound, rfl⟩

/-- The trigger just pushed stands under `trigger_index`. -/
theorem pushTrigger_last {name : Name} {trigger : TriggerSpec} (h : (findComponent s.components name).isSome = true) :
    dependencies (pushTrigger s name trigger).components name (pushTrigger s name trigger).triggerIndex
      = some trigger.dataDependencies.length := by
  obtain ⟨c, hc⟩ := Option.isSome_iff_exists.mp h
  unfold dependencies installedSize pushTrigger
  dsimp only
  rw [findComponent_updateComponent (f := addDataTrigger trigger) (fun _ => rfl), hc]
  simp [findComponent_name hc, addDataTrigger, TriggerState.ofSpec]

theorem Wired.install (h : Wired s) (hr : s.running = true) {op : InstallOp} {ops : List InstallOp}
    (hpc : s.start = .installing (op :: ops)) : Wired { install s op with start := .installing ops } := by
  obtain ⟨⟨last, hp, hl⟩, hk⟩ := h.plan _ hpc
  have hknown : ∀ name trigger, .pushDataTrigger name trigger ∈ ops → (findComponent s.components name).isSome = true :=
    fun name trigger hmem => hk name trigger (List.mem_cons_of_mem _ hmem)
  have hplain : PlanOk last ops → ∀ ops', StartPc.installing ops = .installing ops' →
      (∃ last, PlanOk last ops' ∧ ∀ name n, last = some (name, n) → dependencies s.components name s.triggerIndex = some n)
        ∧ ∀ name trigger, .pushDataTrigger name trigger ∈ ops' → (findComponent s.components name).isSome = true := by
    intro hp' ops' heq
    cases heq
    exact ⟨⟨last, hp', hl⟩, hknown⟩
  cases op with
  | spawnWorker => exact ⟨h.past, h.installed, hplain hp, h.isolated⟩
  | spawnTimer request => exact ⟨h.past, h.installed, hplain hp, h.isolated⟩
  | pushDataTrigger name trigger =>
    have halive : ∀ callback, Alive (pushTrigger s name trigger) callback → Alive s callback := by
      intro callback ha
      unfold Alive readers pushTrigger at ha
      dsimp only at ha
      rwa [flatMap_updateComponent (f := addDataTrigger trigger) (fun _ => rfl)] at ha
    refine ⟨fun callback ha => h.past callback (halive callback ha), fun _ callback ha hrun => ?_, ?_, h.isolated⟩
    · refine (h.installed hr callback (halive callback ha) hrun).mono fun other i n hd => ?_
      exact pushTrigger_dependencies hd
    · intro ops' heq
      cases heq
      refine ⟨⟨some (name, trigger.dataDependencies.length), hp, ?_⟩, fun other trigger' hmem => ?_⟩
      · rintro other n heq
        cases heq
        exact pushTrigger_last (hk name trigger (List.mem_cons_self ..))
      · exact (isSome_findComponent_updateComponent (f := addDataTrigger trigger) (fun _ => rfl) _ name other).trans
          (hknown other trigger' hmem)
  | setDataCallback name topic =>
    obtain ⟨⟨n, hlast, htopic⟩, hp⟩ := hp
    refine ⟨fun callback ha => ?_, fun _ callback ha hrun => ?_, hplain hp, h.isolated⟩
    · rcases alive_reader (s := s) ha with rfl | ha
      · exact Nat.le_refl _
      · exact h.past callback ha
    · rcases alive_reader (s := s) ha with rfl | ha
      · intro triggerIndex topicIndex heq
        cases heq
        exact ⟨n, hl name n hlast, htopic⟩
      · exact h.installed hr callback ha hrun
  | setServiceCallback name deadline priority =>
    refine ⟨fun callback ha => ?_, fun _ callback ha hrun => ?_, hplain hp, h.isolated⟩
    · rcases alive_reader (s := s) ha with rfl | ha
      · exact Nat.le_refl _
      · exact h.past callback ha
    · rcases alive_reader (s := s) ha with rfl | ha
      · intro triggerIndex topicIndex heq
        cases heq
      · exact h.installed hr callback ha hrun
  | pushReader name =>
    have halive : ∀ callback, Alive (Scheduler.install s (.pushReader name)) callback → Alive s callback := by
      intro callback h
      rcases h with ha | ha
      · exact .inl ha
      · right
        rcases mem_readers.mp ha with heq | ⟨c, hc, hmem⟩
        · cases heq
        · obtain ⟨d, hd, rfl⟩ := List.mem_map.mp hc
          split at hmem
          · rcases List.mem_append.mp hmem with hmem | hmem
            · exact mem_readers.mpr (.inr ⟨d, hd, hmem⟩)
            · exact mem_readers.mpr (.inl (Option.mem_toList.mp hmem))
          · exact mem_readers.mpr (.inr ⟨d, hd, hmem⟩)
    have hdeps : ∀ other i n, dependencies s.components other i = some n →
        dependencies (Scheduler.install s (.pushReader name)).components other i = some n := fun other i n hd =>
      installedSize_updateComponent (f := addReader s.reader) (fun _ => rfl) (fun c _ i trigger ht => ⟨trigger, ht, rfl⟩)
        hd
    refine ⟨fun callback ha => h.past callback (halive callback ha), fun _ callback ha hrun => ?_, ?_, h.isolated⟩
    · exact (h.installed hr callback (halive callback ha) hrun).mono hdeps
    · intro ops' heq
      cases heq
      refine ⟨⟨last, hp, fun other n heq => hdeps _ _ _ (hl other n heq)⟩, fun other trigger hmem => ?_⟩
      exact (isSome_findComponent_updateComponent (f := addReader s.reader) (fun _ => rfl) _ name other).trans
        (hknown other trigger hmem)

theorem mem_pushDataTrigger {components : List ScheduledComponent} {name : Name} {trigger : TriggerSpec}
    (h : .pushDataTrigger name trigger ∈ installPlan options components) : ∃ c ∈ components, c.name = name := by
  unfold installPlan at h
  simp only [List.mem_append, List.mem_flatMap] at h
  rcases h with ((h | ⟨c, hc, trigger', -, h⟩) | ⟨c, -, trigger', -, h⟩) | ⟨c, -, trigger', -, h⟩
  · cases (List.mem_replicate.mp h).2
  · unfold dataOps at h
    split at h
    · rcases List.mem_cons.mp h with h | h
      · cases h
        exact ⟨c, hc, rfl⟩
      · simp at h
    · cases h
  · unfold serviceOps at h
    split at h
    · simp at h
    · cases h
  · unfold timerOps at h
    split at h
    · simp at h
    · cases h

theorem Wired.start (h : Wired s) (hs : startFirst options s = .ok t) : Wired t := by
  obtain ⟨-, -, -, -, graph, -, rfl⟩ := startFirst_ok hs
  -- every callback that is alive was set in an earlier run
  have hpast : ∀ callback, Alive { s with
      components := s.components.map fun c => { c with taskTriggers := graph.statesOf c.name } } callback →
      callback.run ≤ s.run := by
    intro callback h
    rcases h with ha | ha
    · exact h.past callback (.inl ha)
    · refine h.past callback (.inr (mem_readers.mpr ?_))
      rcases mem_readers.mp ha with ha | ⟨c, hc, hmem⟩
      · exact .inl ha
      · obtain ⟨d, hd, rfl⟩ := List.mem_map.mp hc
        exact .inr ⟨d, hd, hmem⟩
  refine ⟨fun callback ha => Nat.le_succ_of_le (hpast callback ha), fun _ callback ha hrun => ?_, ?_, h.isolated⟩
  · have hle := hpast callback ha
    simp only at hrun
    omega
  · intro ops heq
    cases heq
    refine ⟨⟨none, planOk_installPlan options s.components, fun name n heq => (by cases heq)⟩, fun name trigger hmem => ?_⟩
    obtain ⟨c, hc, rfl⟩ := mem_pushDataTrigger hmem
    simp only [findComponent, List.find?_isSome, List.mem_map]
    exact ⟨_, ⟨c, hc, rfl⟩, by simp⟩

/-! ## Notifications -/

/-- A notification of the current run, or one that arrives while no events are accepted. -/
theorem Wired.invoke (h : Wired s) {callback : Callback} (choice : Choice)
    (hcurrent : accepting s = true → callback.run = s.run ∧ installedFor s.components callback) :
    Wired (invoke s callback choice) := by
  have heffect : accepting s = true → Wired { s with effects := (callback.run, s.run) :: s.effects } := by
    intro ha
    refine ⟨h.past, h.installed, h.plan, h.isolated.1, ?_⟩
    intro p hp
    rcases List.mem_cons.mp hp with rfl | hp
    · exact (hcurrent ha).1
    · exact h.isolated.2 p hp
  unfold Scheduler.invoke
  split
  · rename_i triggerIndex topicIndex htarget
    unfold onDataAvailable
    split
    · exact h
    · rename_i hacc
      have ha : accepting s = true := by simpa using hacc
      obtain ⟨n, hn, hlt⟩ := (hcurrent ha).2 triggerIndex topicIndex htarget
      obtain ⟨trigger, next, queue, hlookup⟩ := lookupData_isSome hn hlt
      rw [hlookup]
      have hnoted := (heffect ha).quietly (setDataTrigger_quietly hlookup)
      dsimp only
      split
      · exact hnoted.quietly (queueEvent_quietly _ _ _)
      · exact hnoted
  · split
    · rename_i ha
      exact (heffect ha).quietly (queueEvent_quietly _ _ _)
    · exact h

theorem step_wired {move : Move} (hi : Inv options s) (h : Wired s) (hok : noStale s move)
    (hs : step options s move = some t) : Wired t := by
  cases transition_of_step hs with
  | register name triggers running stopping fresh =>
    refine h.leave rfl ?_ (fun hr => ?_) (fun ops hops => ?_) rfl rfl
    · intro callback h
      rcases h with ha | ha
      · exact .inl ha
      · refine .inr (mem_readers.mpr ?_)
        rcases mem_readers.mp ha with ha | ⟨c, hc, hmem⟩
        · exact .inl ha
        · rcases mem_insertComponent hc with rfl | hc
          · cases hmem
          · exact .inr ⟨c, hc, hmem⟩
    · cases running.symm.trans hr
    · cases running.symm.trans (hi.life.installing ops hops)
  | start first => exact h.start first
  | install pc => exact h.install (hi.life.installing _ pc) pc
  | installFails pc =>
    refine h.leave rfl ?_ (fun hr => ⟨hr, rfl⟩) (by simp) rfl rfl
    intro callback h
    rcases h with ha | ha
    · exact .inl ha
    · refine .inr (mem_readers.mpr ?_)
      rcases mem_readers.mp ha with ha | ha
      · cases ha
      · exact .inr ha
  | finishStart pc => exact h.leave rfl (fun _ ha => ha) (fun hr => ⟨hr, rfl⟩) (by simp) rfl rfl
  | stop starting stopping running =>
    refine h.leave rfl (fun _ ha => ha) (fun hr => (by cases hr)) (fun ops hops => ?_) rfl rfl
    have := hi.life.starting.mpr (by rw [show s.start = .installing ops from hops]; simp)
    cases starting.symm.trans this
  | stopFromStart pc stopping running =>
    refine h.leave rfl (fun _ ha => ha) (fun hr => (by cases hr)) (fun ops hops => ?_) rfl rfl
    cases pc.symm.trans hops
  | stopNotify pc => exact ⟨h.past, h.installed, h.plan, h.isolated⟩
  | stopClear pc hj =>
    have hstop : s.stop ≠ .idle := by simp [pc]
    refine h.leave rfl ?_ (fun hr => ?_) (fun ops hops => ?_) rfl rfl
    · intro callback h
      rcases h with ha | ha
      · exact .inl ha
      · refine .inr (mem_readers.mpr ?_)
        rcases mem_readers.mp ha with ha | ⟨c, hc, hmem⟩
        · exact .inl ha
        · obtain ⟨d, -, rfl⟩ := List.mem_map.mp hc
          cases hmem
    · cases (hi.life.exclusive hstop).symm.trans hr
    · rcases hi.life.start_during_stop hstop with hst | hst
      · simp [stopClear, hst] at hops
      · simp [stopClear, hst] at hops
  | trigger found => exact ⟨h.past, h.installed, h.plan, h.isolated⟩
  | enqueueCall choice call =>
    refine Wired.quietly ?_ (enqueue_quietly _ _ _)
    exact ⟨h.past, h.installed, h.plan, h.isolated⟩
  | copyCallback reader =>
    refine h.quietly ⟨rfl, rfl, rfl, rfl, ?_, rfl, rfl, fun _ _ _ h => h, fun _ h => h⟩
    intro callback h
    rcases h with ha | ha
    · rcases List.mem_append.mp ha with ha | ha
      · exact .inl ha
      · rw [List.mem_singleton.mp ha]
        exact .inr (List.mem_of_getElem? reader)
    · exact .inr ha
  | @invokeCallback k callback choice copy =>
    have hmem : Alive s callback := .inl (List.mem_of_getElem? copy)
    have herased : Wired { s with inFlight := s.inFlight.eraseIdx k } := by
      refine h.quietly ⟨rfl, rfl, rfl, rfl, ?_, rfl, rfl, fun _ _ _ h => h, fun _ h => h⟩
      intro other h
      rcases h with ha | ha
      · exact .inl (List.mem_of_mem_eraseIdx ha)
      · exact .inr ha
    refine herased.invoke choice fun ha => ?_
    have hrun : callback.run = s.run := hok k choice callback rfl copy ha
    exact ⟨hrun, h.installed (hi.life.accepting_running.mp ha) callback hmem hrun⟩
  | timerExpires thread => exact ⟨h.past, h.installed, h.plan, h.isolated⟩
  | timerStops thread => exact ⟨h.past, h.installed, h.plan, h.isolated⟩
  | timerEnqueues choice thread =>
    refine Wired.quietly ?_ (enqueue_quietly _ _ _)
    exact ⟨h.past, h.installed, h.plan, h.isolated⟩
  | workerBegins thread => exact ⟨h.past, h.installed, h.plan, h.isolated⟩
  | workerDispatches elapsed thread at_ => exact h.quietly (dispatch_quietly options s _ elapsed)
  | workerRetries thread => exact ⟨h.past, h.installed, h.plan, h.isolated⟩
  | workerWakes thread blocked => exact ⟨h.past, h.installed, h.plan, h.isolated⟩
  | workerCompletes status choices thread => exact h.quietly (complete_quietly s _ _ status choices)
  | workerLeaves thread => exact ⟨h.past, h.installed, h.plan, h.isolated⟩

theorem initial_wired (clock : Int) : Wired (initial clock) := by
  refine ⟨?_, fun hr => (by cases hr), fun ops hops => (by cases hops), rfl, fun p hp => (by cases hp)⟩
  intro callback h
  rcases h with ha | ha
  · cases ha
  · cases ha

theorem notifications_stay_in_their_run (h : Reach (step options) noStale IsInitial s) :
    Isolated s ∧ ∀ callback triggerIndex topicIndex, callback ∈ s.inFlight → callback.run = s.run →
      accepting s = true → callback.target = .data triggerIndex topicIndex →
        (lookupData s callback.component triggerIndex topicIndex).isSome = true := by
  have hwired : Wired s := by
    refine h.invariant_reach ?_ fun s move t hr hw hok hs => step_wired (reach_inv hr) hw hok hs
    intro s h
    obtain ⟨clock, rfl⟩ := h
    exact initial_wired clock
  refine ⟨hwired.isolated, fun callback triggerIndex topicIndex hmem hrun ha htarget => ?_⟩
  have hr := (reach_inv h).life.accepting_running.mp ha
  obtain ⟨n, hn, hlt⟩ := hwired.installed hr callback (.inl hmem) hrun triggerIndex topicIndex htarget
  obtain ⟨trigger, next, queue, hlookup⟩ := lookupData_isSome hn hlt
  rw [hlookup]
  rfl

/-- One component that runs when both of its topics have data; the transport copies the first callback. -/
def dataRun : List Move :=
  [.register [97] [{ kind := .data, dataDependencies := [[1], [2]] }], .start, .install, .install, .install, .install,
    .install, .install, .finishStart, .copyCallback 0]

/-- `Stop`, with the worker idle. -/
def idleStop : List Move :=
  [.stop, .stopNotify, .workerBegins 0, .workerDispatches 0 0, .workerLeaves 0, .stopClear]

/-- The next `Start`, with all its steps. -/
def restart : List Move := [.start, .install, .install, .install, .install, .install, .install, .finishStart]

theorem a_stale_copy_reaches_the_next_run :
    (∃ s, Reach (step {}) anyMove IsInitial s ∧ s.faults = 1)
      ∧ ∃ s, Reach (step {}) anyMove IsInitial s ∧ s.effects = [(1, 2)]
        ∧ s.components.map (fun c => c.dataTriggers.map TriggerState.ready) = [[[true, false]]] := by
  constructor
  · obtain ⟨s, hs, hp⟩ : ∃ s, Reach (step {}) anyMove IsInitial s ∧ decide (s.faults = 1) = true :=
      reach_of_run (dataRun ++ idleStop ++ [.start, .invokeCallback 0 {}]) _ ⟨0, rfl⟩ (by decide +kernel)
    exact ⟨s, hs, of_decide_eq_true hp⟩
  · obtain ⟨s, hs, hp⟩ : ∃ s, Reach (step {}) anyMove IsInitial s ∧ decide (s.effects = [(1, 2)]
        ∧ s.components.map (fun c => c.dataTriggers.map TriggerState.ready) = [[[true, false]]]) = true :=
      reach_of_run (dataRun ++ idleStop ++ restart ++ [.invokeCallback 0 {}]) _ ⟨0, rfl⟩ (by decide +kernel)
    exact ⟨s, hs, of_decide_eq_true hp⟩

def noStaleCheck (s : State) : Move → Bool
  | .invokeCallback k _ => s.inFlight[k]?.all fun callback => !accepting s || decide (callback.run = s.run)
  | _ => true

theorem noStaleCheck_sound (s : State) (move : Move) (h : noStaleCheck s move = true) : noStale s move := by
  rintro k choice callback rfl hk ha
  simpa [noStaleCheck, hk, ha] using h

/-- A copy outlives its run unharmed; one of the next run marks its trigger. -/
theorem a_fresh_copy_finds_its_trigger :
    ∃ s, s.run = 2 ∧ s.inFlight.map Callback.run = [2] ∧ s.effects = [(2, 2)] ∧ Isolated s := by
  obtain ⟨s, hs, hp⟩ : ∃ s, Reach (step {}) noStale IsInitial s
      ∧ decide (s.run = 2 ∧ s.inFlight.map Callback.run = [2] ∧ s.effects = [(2, 2)]) = true :=
    reach_of_check noStaleCheck
      (dataRun ++ idleStop ++ [.invokeCallback 0 {}] ++ restart
        ++ [.copyCallback 0, .copyCallback 1, .invokeCallback 0 {}])
      _ noStaleCheck_sound ⟨0, rfl⟩ (by decide +kernel)
  obtain ⟨hrun, hflight, heffects⟩ := of_decide_eq_true hp
  exact ⟨s, hrun, hflight, heffects, (notifications_stay_in_their_run hs).1⟩

end PuppetMaster.Scheduler
