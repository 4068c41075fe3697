/-
  PuppetMaster.Service.ScheduledServerProofs — no request of a scheduled server is stranded,
  when none is missed before the trigger's callback is set.

  - `Wired`: where `Start` stands with the callback of this service. Once `Start` has
    returned, the callback is set on the trigger reader of the current run (`armed`).
  - `Inv`: while it is set, every publish under way will notify (`seen`), and whatever the
    server holds is awaited by an execution or announced by a notification (`covered`).
    The bound of a pass is no obstacle: it counts what is queued when the pass begins, and
    what arrives later has its own notification.
  - `no_request_is_stranded`: so no request is stranded, in any run that misses none.
    `an_early_request_is_stranded` is the run the condition leaves out.
-/

import PuppetMaster.Service.ScheduledServer

namespace PuppetMaster.Service.ScheduledServer

open PuppetMaster.Core PuppetMaster.Lib PuppetMaster.Service
open PuppetMaster.InMemory (Mailbox queueCapacity usesUnboundedQueue)
open PuppetMaster.Scheduler (Name Callback InstallOp SchedulerOptions TriggerSpec ScheduledComponent serviceClaims
  serviceOps installPlan specs)

/-! ## The plan of `Start` -/

/-- The op sets a service callback of that component. -/
def setsServiceOf (name : Name) : InstallOp → Bool
  | .setServiceCallback other _ _ => decide (other = name)
  | _ => false

def servicesLeft (name : Name) (ops : List InstallOp) : Nat := ops.countP (setsServiceOf name)

theorem servicesLeft_serviceOps (name : Name) (trigger : TriggerSpec) :
    servicesLeft name (serviceOps name trigger) =
      (if trigger.kind = .service then trigger.serviceDependencies else []).length := by
  unfold serviceOps servicesLeft
  split
  · induction trigger.serviceDependencies with
    | nil => rfl
    | cons service services ih =>
      rw [List.flatMap_cons, List.countP_append, ih]
      simp [setsServiceOf, Nat.add_comm]
  · rfl

theorem servicesLeft_triggers (name : Name) (triggers : List TriggerSpec) :
    servicesLeft name (triggers.flatMap (serviceOps name)) = (serviceClaims triggers).length := by
  induction triggers with
  | nil => rfl
  | cons trigger triggers ih =>
    unfold servicesLeft serviceClaims at ih ⊢
    rw [List.flatMap_cons, List.countP_append, List.flatMap_cons, List.length_append, ih]
    exact congrArg (· + _) (servicesLeft_serviceOps name trigger)

theorem servicesLeft_le {name : Name} {ops ops' : List InstallOp} (h : List.Sublist ops ops') :
    servicesLeft name ops ≤ servicesLeft name ops' := h.countP_le

/-- `Start` sets a callback for every service that a trigger of the component names. -/
theorem servicesLeft_installPlan {options : SchedulerOptions} {components : List ScheduledComponent} {name : Name}
    {triggers : List TriggerSpec} (h : (name, triggers) ∈ specs components) :
    (serviceClaims triggers).length ≤ servicesLeft name (installPlan options components) := by
  obtain ⟨c, hc, hspec⟩ := List.mem_map.mp h
  cases hspec
  have hown : List.Sublist (c.triggers.flatMap (serviceOps c.name))
      (components.flatMap fun c => c.triggers.flatMap (serviceOps c.name)) := by
    rw [List.flatMap_def (l := components)]
    exact List.sublist_flatten_of_mem (List.mem_map_of_mem hc)
  have hplan : List.Sublist (components.flatMap fun c => c.triggers.flatMap (serviceOps c.name))
      (installPlan options components) :=
    (List.sublist_append_right _ _).trans (List.sublist_append_left _ _)
  rw [← servicesLeft_triggers]
  exact servicesLeft_le (hown.trans hplan)

theorem Setup.index_lt (setup : Setup) : setup.index < (serviceClaims setup.triggers).length :=
  List.idxOf_lt_length_of_mem setup.triggered

/-! ## The request reader -/

theorem queueDepth_pos {service : ServiceDeclaration} (h : service.validate.isOk = true) : 0 < service.queueDepth := by
  refine Nat.pos_of_ne_zero fun h0 => ?_
  unfold ServiceDeclaration.validate at h
  simp only [h0, if_true] at h
  split at h
  · rename_i hname
    simp [h] at hname
  · split at h
    · cases h
    · split at h
      · cases h
      · cases h

theorem Setup.requestPolicy_eq (setup : Setup) :
    setup.requestPolicy =
      { delivery := .reliable, freshness := .queued, overflow := .dropOldest, queueDepth := setup.service.queueDepth }
      ∧ 0 < setup.service.queueDepth := by
  have hok := setup.resolved
  unfold requestPolicy
  cases he : endpointsFor setup.service with
  | error status =>
    rw [he] at hok
    cases hok
  | ok endpoints =>
    unfold endpointsFor at he
    rw [then_eq_ok] at he
    obtain ⟨hvalid, he⟩ := he
    simp only [bind_eq_ok] at he
    obtain ⟨_, _, _, _, _, _, _, _, he⟩ := he
    cases he
    exact ⟨rfl, queueDepth_pos (Status.check_eq_ok.mp hvalid)⟩

/-- The request reader never holds more than `queue_depth` requests. -/
theorem push_capacity {setup : Setup} {requests requests' : Mailbox} {message : Message} {status : Status}
    (hpolicy : requests.policy = setup.requestPolicy) (hle : requests.messages.length ≤ setup.service.queueDepth)
    (h : requests.push message false = some (status, requests')) :
    requests'.policy = setup.requestPolicy ∧ requests'.messages.length ≤ setup.service.queueDepth := by
  obtain ⟨hp, hpos⟩ := setup.requestPolicy_eq
  refine ⟨(Mailbox.push_messages h).1.trans hpolicy, ?_⟩
  have hcapacity : queueCapacity requests.policy = setup.service.queueDepth := by
    rw [hpolicy, hp]
    rfl
  have hbounded : usesUnboundedQueue requests.policy = false := by
    rw [hpolicy, hp]
    rfl
  have hoverflow : requests.policy.overflow = .dropOldest := by
    rw [hpolicy, hp]
  have hfresh : requests.policy.freshness ≠ .latest := by
    rw [hpolicy, hp]
    simp
  unfold Mailbox.push at h
  rw [if_neg hfresh] at h
  split at h
  · cases h
    exact hle
  · obtain ⟨⟨pushed, mailbox⟩, hq, h⟩ := Option.map_eq_some_iff.mp h
    have hsame : requests' = mailbox := by
      split at h
      · cases h
        rfl
      · cases h
        rfl
    subst hsame
    unfold Mailbox.pushQueued at hq
    rw [hbounded, hcapacity, hoverflow] at hq
    simp only [Bool.false_eq_true, if_false] at hq
    split at hq
    · rename_i hlt
      cases hq
      rw [List.length_append, List.length_singleton]
      omega
    · cases hq
      rw [List.length_append, List.length_tail, List.length_singleton]
      omega

/-! ## Where `Start` stands -/

variable {setup : Setup} {s t : State} {move : Scheduler.Move}

/-- The callback of this service has been set, in a run that goes on. -/
def Armed (setup : Setup) (s : State) : Prop :=
  s.scheduler.running = true ∧ s.scheduler.start ≠ .failing ∧ setup.index < s.installed

/-- `Start` has set the callback or is still to set it. -/
def Planned (setup : Setup) (s : State) : Prop :=
  s.scheduler.running = true →
    match s.scheduler.start with
    | .installing ops => setup.index < s.installed + servicesLeft setup.component ops
    | .idle => setup.index < s.installed
    | _ => True

structure Wired (setup : Setup) (s : State) : Prop where
  scheduler : Scheduler.Inv setup.options s.scheduler
  registered : (setup.component, setup.triggers) ∈ specs s.scheduler.components
  planned : Planned setup s
  rest : s.scheduler.running = false → s.scheduler.stop = .idle → s.reader = none
  current : ∀ reader, s.reader = some reader → reader.run = s.scheduler.run
  armed : Armed setup s → ∃ callback, s.reader = some ⟨s.scheduler.run, some callback⟩
    ∧ callback.component = setup.component ∧ callback.target.isService = true

theorem nextService_eq_some {deadline priority : Int} :
    nextService setup s = some (deadline, priority) ↔
      ∃ ops, s.scheduler.start = .installing (.setServiceCallback setup.component deadline priority :: ops) := by
  unfold nextService
  constructor
  · intro h
    split at h
    · rename_i name d p ops hstart
      obtain ⟨rfl, he⟩ := Scheduler.ite_some h
      cases he
      exact ⟨ops, hstart⟩
    · cases h
  · intro h
    obtain ⟨ops, hstart⟩ := h
    rw [hstart]
    simp

/-- The first op left, counted as the step that executes it counts it. -/
theorem servicesLeft_install {op : InstallOp} {ops : List InstallOp}
    (hstart : s.scheduler.start = .installing (op :: ops)) :
    installedAfter setup s .install + servicesLeft setup.component ops =
      s.installed + servicesLeft setup.component (op :: ops) := by
  have hnext : (nextService setup s).isSome = setsServiceOf setup.component op := by
    unfold nextService
    rw [hstart]
    cases op with
    | setServiceCallback name deadline priority =>
      simp only [setsServiceOf]
      split <;> simp_all
    | _ => rfl
  unfold installedAfter servicesLeft
  rw [List.countP_cons, hnext]
  simp only
  split
  · omega
  · omega

theorem schedulerStep_some (h : schedulerStep setup s move = some t) :
    ∃ u, enabled setup s move = true ∧ Scheduler.step setup.options s.scheduler move = some u
      ∧ t = { s with
        scheduler := u
        reader := readerAfter setup s move
        installed := installedAfter setup s move
        serve := serveAfter setup s u
        started := startedAfter setup s u move } := by
  unfold schedulerStep at h
  split at h
  · rename_i hen
    obtain ⟨u, hu, rfl⟩ := Option.map_eq_some_iff.mp h
    exact ⟨u, hen, hu, rfl⟩
  · cases h

theorem readerAfter_some {reader : TriggerReader} (h : readerAfter setup s move = some reader) :
    ∃ before, s.reader = some before ∧ before.run = reader.run := by
  unfold readerAfter at h
  split at h
  · split at h
    · exact ⟨reader, h, rfl⟩
    · split at h
      · obtain ⟨before, hb, rfl⟩ := Option.map_eq_some_iff.mp h
        exact ⟨before, hb, rfl⟩
      · exact ⟨reader, h, rfl⟩
  · split at h
    · cases h
    · exact ⟨reader, h, rfl⟩
  · cases h
  · exact ⟨reader, h, rfl⟩

theorem after_other (hmove : move.isLifecycle = false) :
    readerAfter setup s move = s.reader ∧ installedAfter setup s move = s.installed := by
  cases move with
  | _ => first | exact ⟨rfl, rfl⟩ | cases hmove

/-- A step that leaves the callback set had it set before, on the same reader, or sets it. -/
theorem armed_before (hw : Wired setup s) (h : schedulerStep setup s move = some t) (ha : Armed setup t) :
    (Armed setup s ∧ t.reader = s.reader ∧ t.scheduler.run = s.scheduler.run ∧ move ≠ .stopClear)
      ∨ move = .install ∧ setsCallback setup s = true := by
  obtain ⟨u, -, hu, rfl⟩ := schedulerStep_some h
  obtain ⟨hrunning, hstart, hinstalled⟩ := ha
  dsimp only at hrunning hstart hinstalled ⊢
  have hlife := hw.scheduler.life
  by_cases hl : move.isLifecycle = false
  · have hsteady := Scheduler.step_steady hu hl
    obtain ⟨hreader, hsame⟩ : readerAfter setup s move = s.reader ∧ installedAfter setup s move = s.installed :=
      after_other hl
    rw [hsteady.running] at hrunning
    rw [hsteady.start] at hstart
    rw [hsame] at hinstalled
    exact .inl ⟨⟨hrunning, hstart, hinstalled⟩, hreader, hsteady.run, fun e => by rw [e] at hl; cases hl⟩
  cases Scheduler.transition_of_step hu with
  | start first => exact absurd hinstalled (Nat.not_lt_zero _)
  | @install op ops pc =>
    by_cases hsets : setsCallback setup s = true
    · exact .inr ⟨rfl, hsets⟩
    · refine .inl ⟨⟨hlife.installing _ pc, by simp [pc], ?_⟩, ?_, (Scheduler.install_steady _ _).2.2, by simp⟩
      · unfold installedAfter at hinstalled
        unfold setsCallback at hsets
        dsimp only at hinstalled
        split at hinstalled
        · rename_i hnext
          have hne : s.installed ≠ setup.index := by simpa [hnext] using hsets
          omega
        · exact hinstalled
      · unfold readerAfter
        unfold setsCallback at hsets
        dsimp only
        split
        · rfl
        · rename_i hnext
          rw [if_neg (by simpa [hnext] using hsets)]
  | installFails pc => exact absurd rfl hstart
  | finishStart pc =>
    refine .inl ⟨⟨hrunning, ?_, hinstalled⟩, rfl, rfl, by simp⟩
    rcases pc with pc | pc
    · simp [pc]
    · simp [pc]
  | stop starting stopping running => cases hrunning
  | stopFromStart pc stopping running => cases hrunning
  | stopNotify pc =>
    have := hlife.exclusive (by simp [pc])
    rw [this] at hrunning
    cases hrunning
  | stopClear pc hj =>
    have := hlife.exclusive (by simp [pc])
    rw [show (Scheduler.stopClear s.scheduler).running = s.scheduler.running from rfl, this] at hrunning
    cases hrunning
  | _ => exact absurd rfl hl

theorem step_planned (hw : Wired setup s) (h : schedulerStep setup s move = some t) : Planned setup t := by
  obtain ⟨u, -, hu, rfl⟩ := schedulerStep_some h
  have hlife := hw.scheduler.life
  have hplanned := hw.planned
  intro hrunning
  unfold Planned at hplanned
  dsimp only at hrunning ⊢
  by_cases hl : move.isLifecycle = false
  · have hsteady := Scheduler.step_steady hu hl
    rw [hsteady.start, (after_other hl).2]
    exact hplanned (hsteady.running ▸ hrunning)
  cases Scheduler.transition_of_step hu with
  | start first =>
    obtain ⟨-, -, -, -, graph, -, rfl⟩ := Scheduler.startFirst_ok first
    have : _ ≤ servicesLeft setup.component (installPlan setup.options s.scheduler.components) :=
      servicesLeft_installPlan hw.registered
    have := setup.index_lt
    simp only [installedAfter]
    omega
  | install pc =>
    have := hplanned (hlife.installing _ pc)
    rw [pc] at this
    simp only at this ⊢
    rw [servicesLeft_install pc]
    exact this
  | installFails pc => trivial
  | finishStart pc =>
    have := hplanned hrunning
    rcases pc with pc | pc
    · rw [pc] at this
      exact this
    · rw [(hlife.finishing pc).1] at hrunning
      cases hrunning
  | stop starting stopping running => cases hrunning
  | stopFromStart pc stopping running => cases hrunning
  | stopNotify pc =>
    rw [hlife.exclusive (by simp [pc])] at hrunning
    cases hrunning
  | stopClear pc hj =>
    rw [show (Scheduler.stopClear s.scheduler).running = s.scheduler.running from rfl,
      hlife.exclusive (by simp [pc])] at hrunning
    cases hrunning
  | _ => exact absurd rfl hl

theorem step_rest (hw : Wired setup s) (h : schedulerStep setup s move = some t)
    (hrunning : t.scheduler.running = false) (hstop : t.scheduler.stop = .idle) : t.reader = none := by
  obtain ⟨u, -, hu, rfl⟩ := schedulerStep_some h
  have hlife := hw.scheduler.life
  dsimp only at hrunning hstop ⊢
  by_cases hl : move.isLifecycle = false
  · have hsteady := Scheduler.step_steady hu hl
    rw [(after_other hl).1]
    exact hw.rest (hsteady.running ▸ hrunning) (hsteady.stop ▸ hstop)
  cases Scheduler.transition_of_step hu with
  | start first =>
    obtain ⟨-, -, -, -, graph, -, rfl⟩ := Scheduler.startFirst_ok first
    cases hrunning
  | install pc =>
    rw [(Scheduler.install_steady _ _).1, hlife.installing _ pc] at hrunning
    cases hrunning
  | installFails pc =>
    rw [show s.scheduler.running = true from hlife.installing _ pc] at hrunning
    cases hrunning
  | finishStart pc => exact hw.rest hrunning hstop
  | stop starting stopping running => cases hstop
  | stopFromStart pc stopping running => cases hstop
  | stopNotify pc => cases hstop
  | stopClear pc hj => rfl
  | _ => exact absurd rfl hl

/-- The reader that stays belongs to the run that goes on. -/
theorem step_current (hw : Wired setup s) (h : schedulerStep setup s move = some t) (reader : TriggerReader)
    (hreader : t.reader = some reader) : reader.run = t.scheduler.run := by
  obtain ⟨u, -, hu, rfl⟩ := schedulerStep_some h
  obtain ⟨before, hbefore, hrun⟩ := readerAfter_some hreader
  by_cases hstart : move = .start
  · subst hstart
    cases Scheduler.transition_of_step hu with
    | start first =>
      obtain ⟨-, -, hstopped, -⟩ := Scheduler.startFirst_ok first
      have hnone := hw.rest hstopped (hw.scheduler.life.cleared_at_start first).2
      rw [hnone] at hbefore
      cases hbefore
  · rw [← hrun, hw.current before hbefore]
    exact (Scheduler.step_run hu hstart).symm

/-- Setting the callback arms the reader that was created for it. -/
theorem step_armed (hw : Wired setup s) (h : schedulerStep setup s move = some t) (ha : Armed setup t) :
    ∃ callback, t.reader = some ⟨t.scheduler.run, some callback⟩ ∧ callback.component = setup.component
      ∧ callback.target.isService = true := by
  rcases armed_before hw h ha with ⟨hbefore, hreader, hrun, -⟩ | ⟨rfl, hsets⟩
  · rw [hreader, hrun]
    exact hw.armed hbefore
  · have hcurrent := step_current hw h
    obtain ⟨u, hen, hu, rfl⟩ := schedulerStep_some h
    obtain ⟨reader, hsome⟩ : ∃ reader, s.reader = some reader := by
      simpa [enabled, hsets, Option.isSome_iff_exists] using hen
    unfold setsCallback at hsets
    obtain ⟨hnext, hindex⟩ := Bool.and_eq_true_iff.mp hsets
    obtain ⟨⟨deadline, priority⟩, hnext⟩ := Option.isSome_iff_exists.mp hnext
    have hafter : readerAfter setup s .install =
        some ⟨reader.run, some ⟨setup.component, .service deadline priority, s.scheduler.run⟩⟩ := by
      unfold readerAfter
      rw [hnext]
      simp only [of_decide_eq_true hindex, if_true, hsome, Option.map_some]
    have hrun := hcurrent _ hafter
    dsimp only at hrun ⊢
    exact ⟨⟨setup.component, .service deadline priority, s.scheduler.run⟩, by rw [hafter, hrun], rfl, rfl⟩

theorem step_wired (hw : Wired setup s) (h : schedulerStep setup s move = some t) : Wired setup t := by
  obtain ⟨u, -, hu, ht⟩ := schedulerStep_some h
  have hscheduler : t.scheduler = u := by rw [ht]
  refine ⟨?_, ?_, step_planned hw h, step_rest hw h, step_current hw h, step_armed hw h⟩
  · rw [hscheduler]
    exact Scheduler.step_inv hw.scheduler hu
  · rw [hscheduler]
    exact Scheduler.step_specs hu _ hw.registered

/-! ## Requests that are held -/

structure Inv (setup : Setup) (s : State) : Prop where
  wired : Wired setup s
  executing : s.serve = .idle ↔ setup.component ∉ s.scheduler.executingComponents
  policy : s.requests.policy = setup.requestPolicy
  capacity : s.requests.messages.length ≤ setup.service.queueDepth
  seen : Armed setup s → s.started = true → ∀ p ∈ s.publishes, p.delivered = false → p.saw = some s.scheduler.run
  covered : Armed setup s → s.started = true → Awaited setup s ∨ Notified setup s

theorem serveAfter_idle {u : Scheduler.State}
    (h : s.serve = .idle ↔ setup.component ∉ s.scheduler.executingComponents) :
    serveAfter setup s u = .idle ↔ setup.component ∉ u.executingComponents := by
  unfold serveAfter
  by_cases hu : setup.component ∈ u.executingComponents
  · rw [if_pos hu]
    refine iff_of_false ?_ (not_not_intro hu)
    split
    · rename_i hs
      exact fun he => h.mp he hs
    · split
      · simp
      · simp
  · simp [hu]

theorem startedAfter_true {u : Scheduler.State} (h : startedAfter setup s u move = true) : s.started = true := by
  unfold startedAfter at h
  split at h
  · split at h
    · exact (Bool.and_eq_true_iff.mp h).1
    · exact h
  · exact h

/-- A pass that is under way goes on; it ends only once `Execute` has returned. -/
theorem serveAfter_eq {u : Scheduler.State} (hen : enabled setup s move = true)
    (hcarried : Scheduler.Carried s.scheduler move u)
    (hexec : s.serve = .idle ↔ setup.component ∉ s.scheduler.executingComponents) (hidle : s.serve ≠ .idle)
    (hreturned : s.serve ≠ .returned) : serveAfter setup s u = s.serve := by
  have hs : setup.component ∈ s.scheduler.executingComponents := by
    by_contra hnot
    exact hidle (hexec.mpr hnot)
  unfold serveAfter
  rcases hcarried.executing _ hs with hu | ⟨i, status, choices, event, rfl, hworker, hcomponent⟩
  · rw [if_pos hu, if_pos hs]
  · simp [enabled, hworker, hcomponent, hreturned] at hen

/-- What covers the requests before a move of the running scheduler covers them after it. -/
theorem covered_scheduler {u : Scheduler.State} (haccepting : Scheduler.accepting s.scheduler = true)
    (hexec : s.serve = .idle ↔ setup.component ∉ s.scheduler.executingComponents) (hstarted : s.started = true)
    (hcovered : Awaited setup s ∨ Notified setup s) (hen : enabled setup s move = true)
    (hcarried : Scheduler.Carried s.scheduler move u) (hrun : u.run = s.scheduler.run)
    (reader : Option TriggerReader) (installed : Nat) (started : Bool) :
    let t := { s with
      scheduler := u, reader := reader, installed := installed, serve := serveAfter setup s u, started := started }
    Awaited setup t ∨ Notified setup t := by
  intro t
  rcases hcovered with (hempty | hqueued | hentering | ⟨budget, hserving, hle⟩) | (hpublish | hcopy)
  · exact .inl (.inl hempty)
  · rcases hcarried.queued _ hqueued with hqueued | ⟨hnot, hnow⟩
    · exact .inl (.inr (.inl hqueued))
    · refine .inl (.inr (.inr (.inl ?_)))
      simp [t, serveAfter, hnow, hnot, hstarted]
  · refine .inl (.inr (.inr (.inl ?_)))
    exact (serveAfter_eq hen hcarried hexec (by simp [hentering]) (by simp [hentering])).trans hentering
  · refine .inl (.inr (.inr (.inr ⟨budget, ?_, hle⟩)))
    exact (serveAfter_eq hen hcarried hexec (by simp [hserving]) (by simp [hserving])).trans hserving
  · obtain ⟨p, hp, hdelivered, hsaw⟩ := hpublish
    exact .inr (.inl ⟨p, hp, hdelivered, hsaw.trans (congrArg some hrun.symm)⟩)
  · obtain ⟨callback, hmem, hcomponent, hservice⟩ := hcopy
    rcases hcarried.copies haccepting callback hmem hservice with hmem | hqueued
    · exact .inr (.inr ⟨callback, hmem, hcomponent, hservice⟩)
    · exact .inl (.inr (.inl (hcomponent ▸ hqueued)))

theorem running_of_setsCallback (hw : Wired setup s) (h : setsCallback setup s = true) :
    s.scheduler.running = true := by
  obtain ⟨⟨deadline, priority⟩, hnext⟩ := Option.isSome_iff_exists.mp (Bool.and_eq_true_iff.mp h).1
  obtain ⟨ops, hstart⟩ := nextService_eq_some.mp hnext
  exact hw.scheduler.life.installing _ hstart

theorem step_scheduler (hi : Inv setup s) (hok : noneMissed setup s (.scheduler move))
    (h : schedulerStep setup s move = some t) : Inv setup t := by
  have hw := step_wired hi.wired h
  have hbefore := armed_before hi.wired h
  have hlife := hi.wired.scheduler.life
  obtain ⟨u, hen, hu, rfl⟩ := schedulerStep_some h
  refine ⟨hw, serveAfter_idle hi.executing, hi.policy, hi.capacity, fun ha hstarted => ?_, fun ha hstarted => ?_⟩
  · have hstarted := startedAfter_true hstarted
    rcases hbefore ha with ⟨ha, -, hrun, -⟩ | ⟨rfl, hsets⟩
    · dsimp only at hrun ⊢
      rw [hrun]
      exact hi.seen ha hstarted
    · dsimp only
      rw [Scheduler.step_run hu (by simp)]
      exact (hok rfl hsets hstarted).2
  · have hstarted := startedAfter_true hstarted
    rcases hbefore ha with ⟨ha, -, hrun, hclear⟩ | ⟨rfl, hsets⟩
    · exact covered_scheduler (hlife.accepting_running.mpr ha.1) hi.executing hstarted (hi.covered ha hstarted)
        hen (Scheduler.step_carried hu hclear) hrun _ _ _
    · have hrunning := running_of_setsCallback hi.wired hsets
      exact covered_scheduler (hlife.accepting_running.mpr hrunning) hi.executing hstarted (hok rfl hsets hstarted).1
        hen (Scheduler.step_carried hu (by simp)) (Scheduler.step_run hu (by simp)) _ _ _

/-! ## Publishes and passes -/

/-- Moves that touch nothing of the scheduler but the copied callbacks keep the wiring. -/
theorem Wired.frame (h : Wired setup s) (inFlight : List Callback) (requests : Mailbox) (publishes : List Publish)
    (serve : ServePc) :
    Wired setup { s with
      scheduler := { s.scheduler with inFlight := inFlight }
      requests := requests, publishes := publishes, serve := serve } :=
  ⟨h.scheduler.calls _ _, h.registered, h.planned, h.rest, h.current, h.armed⟩

theorem step_createReader (hi : Inv setup s) (hsets : setsCallback setup s = true) :
    Inv setup { s with reader := some ⟨s.scheduler.run, none⟩ } := by
  have hindex : s.installed = setup.index := of_decide_eq_true (Bool.and_eq_true_iff.mp hsets).2
  have hnot : ¬ Armed setup { s with reader := some ⟨s.scheduler.run, none⟩ } := by
    intro ha
    exact Nat.lt_irrefl _ (hindex ▸ ha.2.2)
  have hw := hi.wired
  refine ⟨⟨hw.scheduler, hw.registered, hw.planned, ?_, ?_, fun ha => absurd ha hnot⟩, hi.executing, hi.policy,
    hi.capacity, fun ha => absurd ha hnot, fun ha => absurd ha hnot⟩
  · intro hr
    rw [running_of_setsCallback hw hsets] at hr
    cases hr
  · intro reader hreader
    cases hreader
    rfl

theorem step_publish (hi : Inv setup s) (request : Message) :
    Inv setup { s with publishes := s.publishes ++ [⟨request, s.reader.map TriggerReader.run, false⟩] } := by
  refine ⟨hi.wired.frame _ _ _ _, hi.executing, hi.policy, hi.capacity, fun ha hstarted p hp hnot => ?_,
    fun ha hstarted => ?_⟩
  · rcases List.mem_append.mp hp with hp | hp
    · exact hi.seen ha hstarted p hp hnot
    · obtain ⟨callback, hreader, -⟩ := hi.wired.armed ha
      rw [List.mem_singleton.mp hp, hreader]
      rfl
  · rcases hi.covered ha hstarted with hawaited | ⟨p, hp, hrest⟩ | hcopy
    · exact .inl hawaited
    · exact .inr (.inl ⟨p, List.mem_append_left _ hp, hrest⟩)
    · exact .inr (.inr hcopy)

/-- A request that gets into the reader has its own notification to come. -/
theorem step_deliver (hi : Inv setup s) {k : Nat} {p : Publish} {requests : Mailbox} {status : Status}
    (hp : s.publishes[k]? = some p) (hnot : p.delivered = false)
    (hpush : s.requests.push p.request false = some (status, requests)) :
    Inv setup { s with requests := requests, publishes := s.publishes.set k { p with delivered := true } } := by
  obtain ⟨hpolicy, hcapacity⟩ := push_capacity hi.policy hi.capacity hpush
  refine ⟨hi.wired.frame _ _ _ _, hi.executing, hpolicy, hcapacity, fun ha hstarted q hq hqnot => ?_,
    fun ha hstarted => ?_⟩
  · rcases List.mem_or_eq_of_mem_set hq with hq | rfl
    · exact hi.seen ha hstarted q hq hqnot
    · cases hqnot
  · obtain ⟨hlt, -⟩ := List.getElem?_eq_some_iff.mp hp
    refine .inr (.inl ⟨{ p with delivered := true }, List.mem_set hlt _, rfl, ?_⟩)
    exact hi.seen ha hstarted p (List.mem_of_getElem? hp) hnot

/-- The notification of a publish becomes a copied callback. -/
theorem step_notify (hi : Inv setup s) {k : Nat} {p : Publish} (hp : s.publishes[k]? = some p) :
    Inv setup { s with
      publishes := s.publishes.eraseIdx k
      scheduler := { s.scheduler with inFlight := s.scheduler.inFlight ++ copies s p } } := by
  refine ⟨hi.wired.frame _ _ _ _, hi.executing, hi.policy, hi.capacity, fun ha hstarted q hq => ?_,
    fun ha hstarted => ?_⟩
  · exact hi.seen ha hstarted q (List.mem_of_mem_eraseIdx hq)
  · rcases hi.covered ha hstarted with hawaited | ⟨q, hq, hd, hsaw⟩ | ⟨callback, hc, hrest⟩
    · exact .inl hawaited
    · obtain ⟨j, hj⟩ := List.mem_iff_getElem?.mp hq
      by_cases hjk : j = k
      · subst hjk
        cases hj.symm.trans hp
        obtain ⟨callback, hreader, hcomponent, hservice⟩ := hi.wired.armed ha
        refine .inr (.inr ⟨callback, List.mem_append_right _ ?_, hcomponent, hservice⟩)
        simp [copies, hreader, hsaw]
      · exact .inr (.inl ⟨q, List.mem_eraseIdx_iff_getElem?.mpr ⟨j, hjk, hj⟩, hd, hsaw⟩)
    · exact .inr (.inr ⟨callback, List.mem_append_left _ hc, hrest⟩)

theorem step_absorb (hi : Inv setup s) {k j : Nat} {p q : Publish} (hp : s.publishes[k]? = some p)
    (hq : s.publishes[j]? = some q) (hkj : k ≠ j) (hdelivered : q.delivered = true) (hsame : p.saw = q.saw) :
    Inv setup { s with publishes := s.publishes.eraseIdx k } := by
  refine ⟨hi.wired.frame _ _ _ _, hi.executing, hi.policy, hi.capacity, fun ha hstarted r hr => ?_,
    fun ha hstarted => ?_⟩
  · exact hi.seen ha hstarted r (List.mem_of_mem_eraseIdx hr)
  · rcases hi.covered ha hstarted with hawaited | ⟨r, hr, hd, hsaw⟩ | hcopy
    · exact .inl hawaited
    · obtain ⟨i, hir⟩ := List.mem_iff_getElem?.mp hr
      by_cases hik : i = k
      · subst hik
        cases hir.symm.trans hp
        refine .inr (.inl ⟨q, List.mem_eraseIdx_iff_getElem?.mpr ⟨j, Ne.symm hkj, hq⟩, hdelivered, ?_⟩)
        exact hsame.symm.trans hsaw
      · exact .inr (.inl ⟨r, List.mem_eraseIdx_iff_getElem?.mpr ⟨i, hik, hir⟩, hd, hsaw⟩)
    · exact .inr (.inr hcopy)

/-- A pass that has begun: it has only to cover what the pass before it covered. -/
theorem step_serve (hi : Inv setup s) (serve : ServePc) (requests : Mailbox) (hbefore : s.serve ≠ .idle)
    (hafter : serve ≠ .idle) (hpolicy : requests.policy = s.requests.policy)
    (hle : requests.messages.length ≤ s.requests.messages.length)
    (hcovered : s.requests.messages = [] ∨ s.serve = .entering
        ∨ (∃ budget, s.serve = .serving budget ∧ s.requests.messages.length ≤ budget) →
      requests.messages = [] ∨ ∃ budget, serve = .serving budget ∧ requests.messages.length ≤ budget) :
    Inv setup { s with requests := requests, serve := serve } := by
  refine ⟨hi.wired.frame _ _ _ _, ?_, hpolicy.trans hi.policy, hle.trans hi.capacity,
    hi.seen, fun ha hstarted => ?_⟩
  · refine iff_of_false hafter fun hnot => hbefore (hi.executing.mpr hnot)
  · have hcover : requests.messages = [] ∨ (∃ budget, serve = .serving budget ∧ requests.messages.length ≤ budget) →
        Awaited setup { s with requests := requests, serve := serve } := by
      intro h
      rcases h with hempty | hserving
      · exact .inl hempty
      · exact .inr (.inr (.inr hserving))
    rcases hi.covered ha hstarted with (hempty | hqueued | hentering | hserving) | hnotified
    · exact .inl (hcover (hcovered (.inl hempty)))
    · exact .inl (.inr (.inl hqueued))
    · exact .inl (hcover (hcovered (.inr (.inl hentering))))
    · exact .inl (hcover (hcovered (.inr (.inr hserving))))
    · exact .inr hnotified

theorem step_enter (hi : Inv setup s) (counted : Bool) (hentering : s.serve = .entering) :
    Inv setup { s with
      serve := .serving (if counted then s.requests.messages.length else setup.service.queueDepth) } := by
  refine step_serve hi _ s.requests (by simp [hentering]) (by simp) rfl (Nat.le_refl _) fun _ => .inr ⟨_, rfl, ?_⟩
  split
  · exact Nat.le_refl _
  · exact hi.capacity

theorem step_read (hi : Inv setup s) {budget : Nat} (hserving : s.serve = .serving (budget + 1))
    (h : step setup s .read = some t) : Inv setup t := by
  have hidle : s.serve ≠ .idle := by simp [hserving]
  simp only [step, hserving, Mailbox.read] at h
  cases hm : s.requests.messages with
  | nil =>
    simp only [hm] at h
    cases h
    exact step_serve hi .returned s.requests hidle (by simp) rfl (Nat.le_refl _) fun _ => .inl hm
  | cons message rest =>
    simp only [hm] at h
    cases h
    refine step_serve hi (.serving budget) _ hidle (by simp) rfl (by simp [hm]) ?_
    intro h
    rcases h with hempty | hentering | ⟨b, hb, hle⟩
    · rw [hm] at hempty
      cases hempty
    · rw [hserving] at hentering
      cases hentering
    · cases hserving.symm.trans hb
      refine .inr ⟨budget, rfl, ?_⟩
      rw [hm, List.length_cons] at hle
      exact Nat.le_of_succ_le_succ hle

theorem step_leave (hi : Inv setup s) (hserving : s.serve = .serving 0) : Inv setup { s with serve := .returned } := by
  refine step_serve hi .returned s.requests (by simp [hserving]) (by simp) rfl (Nat.le_refl _) ?_
  intro h
  rcases h with hempty | hentering | ⟨b, hb, hle⟩
  · exact .inl hempty
  · rw [hserving] at hentering
    cases hentering
  · cases hserving.symm.trans hb
    exact .inl (List.eq_nil_of_length_eq_zero (Nat.le_zero.mp hle))

/-! ## Runs -/

theorem step_inv {move : Move} (hi : Inv setup s) (hok : noneMissed setup s move) (h : step setup s move = some t) :
    Inv setup t := by
  cases move with
  | scheduler move => exact step_scheduler hi hok h
  | createReader =>
    obtain ⟨hguard, rfl⟩ := Scheduler.ite_some h
    exact step_createReader hi (Bool.and_eq_true_iff.mp hguard).1
  | publish request =>
    cases h
    exact step_publish hi request
  | deliver k =>
    simp only [step] at h
    split at h
    · cases h
    · rename_i p hp
      split at h
      · cases h
      · rename_i hnot
        obtain ⟨⟨status, requests⟩, hpush, rfl⟩ := Option.map_eq_some_iff.mp h
        exact step_deliver hi hp (by simpa using hnot) hpush
  | notify k =>
    simp only [step] at h
    split at h
    · cases h
    · rename_i p hp
      obtain ⟨-, rfl⟩ := Scheduler.ite_some h
      exact step_notify hi hp
  | absorb k j =>
    simp only [step] at h
    split at h
    · rename_i p q hp hq
      obtain ⟨⟨hkj, -, hdelivered, hsame⟩, rfl⟩ := Scheduler.ite_some h
      exact step_absorb hi hp hq hkj hdelivered hsame
    · cases h
  | enter counted =>
    obtain ⟨hentering, rfl⟩ := Scheduler.ite_some h
    exact step_enter hi counted hentering
  | read =>
    have hserving : ∃ budget, s.serve = .serving (budget + 1) := by
      simp only [step] at h
      split at h
      · rename_i budget hserving
        exact ⟨budget, hserving⟩
      · cases h
    obtain ⟨budget, hserving⟩ := hserving
    exact step_read hi hserving h
  | leave =>
    obtain ⟨hserving, rfl⟩ := Scheduler.ite_some h
    exact step_leave hi hserving

theorem initial_inv (setup : Setup) (clock : Int) : Inv setup (initial setup clock) := by
  have hregister : Scheduler.Inv setup.options (initial setup clock).scheduler :=
    (Scheduler.initial_inv setup.options clock).register setup.component setup.triggers
  have hnot : ¬ Armed setup (initial setup clock) := by
    intro h
    obtain ⟨h, -⟩ := h
    cases h
  refine ⟨⟨hregister, List.mem_singleton.mpr rfl, ?_, fun _ _ => rfl, ?_, fun ha => absurd ha hnot⟩, ?_, rfl, ?_,
    fun ha => absurd ha hnot, fun ha => absurd ha hnot⟩
  · intro h
    cases h
  · intro reader h
    cases h
  · exact iff_of_true rfl (List.not_mem_nil)
  · exact Nat.zero_le _

theorem no_request_is_stranded (h : Reach (step setup) (noneMissed setup) (IsInitial setup) s) : ¬ Stranded setup s := by
  have hi : Inv setup s := by
    refine h.invariant ?_ fun s move t hi hok hs => step_inv hi hok hs
    intro s h
    obtain ⟨clock, rfl⟩ := h
    exact initial_inv setup clock
  intro h
  obtain ⟨hrunning, hstarting, -, hstarted, hheld, hqueued, hexecuting, hnotified⟩ := h
  have hidle : s.scheduler.start = .idle := by
    by_contra hne
    rw [hi.wired.scheduler.life.starting.mpr hne] at hstarting
    cases hstarting
  have hinstalled := hi.wired.planned hrunning
  rw [hidle] at hinstalled
  have hserve := hi.executing.mpr hexecuting
  rcases hi.covered ⟨hrunning, by simp [hidle], hinstalled⟩ hstarted with
    (hempty | hq | hentering | ⟨budget, hserving, -⟩) | hn
  · exact hheld hempty
  · exact hqueued hq
  · rw [hserve] at hentering
    cases hentering
  · rw [hserve] at hserving
    cases hserving
  · exact hnotified hn

/-! ## The map server of the documentation -/

def mapService : ServiceDeclaration where
  name := text "/map/query"
  heartbeatInterval := 500000000
  request := ⟨text "map.Query", text "portable", 1⟩
  reply := ⟨text "map.Answer", text "portable", 1⟩

def mapSetup : Setup where
  options := {}
  component := text "map"
  triggers := [{ kind := .service, serviceDependencies := [text "/map/query"], priority := 10 }]
  service := mapService
  resolved := by decide +kernel
  triggered := by decide +kernel

def request (sequence : Nat) : Message := ⟨[], ⟨sequence, 0, 0⟩⟩

/-- `Start`, from its first section to its return. -/
def startMap : List Move :=
  [.scheduler .start, .scheduler .install, .createReader, .scheduler .install, .scheduler .install,
    .scheduler .finishStart, .scheduler (.workerBegins 0)]

def noneMissedCheck (setup : Setup) (s : State) (move : Move) : Bool :=
  decide (move ≠ .scheduler .install) || !setsCallback setup s || (s.requests.messages.isEmpty && s.publishes.isEmpty)

theorem noneMissedCheck_sound (s : State) (move : Move) (h : noneMissedCheck setup s move = true) :
    noneMissed setup s move := by
  rintro rfl hsets -
  simp only [noneMissedCheck, ne_eq, not_true_eq_false, decide_false, hsets, Bool.not_true, Bool.or_self,
    Bool.false_or, Bool.and_eq_true, List.isEmpty_iff] at h
  refine ⟨.inl (.inl h.1), fun p hp => ?_⟩
  rw [h.2] at hp
  cases hp

/-- The second request arrives while the pass for the first one is under way. -/
def duringPass : List Move :=
  startMap ++ [Move.publish (request 1), .deliver 0, .notify 0, .scheduler (.invokeCallback 0 {}),
    .scheduler (.workerDispatches 0 0), .enter true, .publish (request 2), .deliver 0, .read, .leave,
    .scheduler (.workerCompletes 0 .ok []), .notify 0]

theorem a_request_during_a_pass_is_announced :
    ∃ s, Reach (step mapSetup) (noneMissed mapSetup) (IsInitial mapSetup) s ∧ s.requests.messages = [request 2]
      ∧ s.scheduler.queuedComponents = [] ∧ s.scheduler.executingComponents = [] ∧ ¬ Stranded mapSetup s := by
  have hrun : ∃ s, Reach (step mapSetup) (noneMissed mapSetup) (IsInitial mapSetup) s
      ∧ decide (s.requests.messages = [request 2] ∧ s.scheduler.queuedComponents = []
        ∧ s.scheduler.executingComponents = []) = true :=
    reach_of_check (noneMissedCheck mapSetup) duringPass _ noneMissedCheck_sound ⟨0, rfl⟩ (by decide +kernel)
  obtain ⟨s, hs, hp⟩ := hrun
  obtain ⟨hheld, hqueued, hexecuting⟩ := of_decide_eq_true hp
  exact ⟨s, hs, hheld, hqueued, hexecuting, no_request_is_stranded hs⟩

/-- The request arrives between the creation of the server and `Start`; the worker finds nothing to do. -/
def earlyRequest : List Move :=
  [Move.publish (request 1), .deliver 0, .notify 0] ++ startMap ++ [Move.scheduler (.workerDispatches 0 0)]

theorem an_early_request_is_stranded :
    ∃ s, Reach (step mapSetup) anyMove (IsInitial mapSetup) s ∧ Stranded mapSetup s
      ∧ s.publishes = [] ∧ s.scheduler.inFlight = [] := by
  have hrun : ∃ s, Reach (step mapSetup) anyMove (IsInitial mapSetup) s
      ∧ decide (Stranded mapSetup s ∧ s.publishes = [] ∧ s.scheduler.inFlight = []) = true :=
    reach_of_run earlyRequest _ ⟨0, rfl⟩ (by decide +kernel)
  obtain ⟨s, hs, hp⟩ := hrun
  exact ⟨s, hs, of_decide_eq_true hp⟩

end PuppetMaster.Service.ScheduledServer
