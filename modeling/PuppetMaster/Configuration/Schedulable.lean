/-
  PuppetMaster.Configuration.Schedulable — a valid project against the scheduler's checks.

  The checks of a project cover all but one of the scheduler's: every trigger of a valid
  project passes on its own (`serves_of_built`), no two data triggers of a component share
  a topic, and the task graph can be ordered. Nothing in a project's checks keeps two
  service triggers of a component from listing the same service, which the scheduler
  refuses. A valid project is scheduled exactly when none does (`schedulable_iff`).
-/

import PuppetMaster.Configuration.Checked

namespace PuppetMaster.Configuration

open PuppetMaster.Core PuppetMaster.Lib PuppetMaster.Scheduler PuppetMaster.Service
open PuppetMaster.Runtime (ComponentSpec ComponentRegistry)

variable {project : ProjectConfig} {component : ComponentConfig} {spec : ComponentSpec}

/-- No two triggers of the component list the same service. -/
def ServicesApart (component : ComponentConfig) : Prop :=
  component.triggers.Pairwise fun first second => ∀ id ∈ first.services, id ∉ second.services

instance (component : ComponentConfig) : Decidable (ServicesApart component) :=
  inferInstanceAs (Decidable (List.Pairwise _ _))

/-! ## One component -/

theorem Checked.isService_biUnique (h : Checked project) : Relator.BiUnique (IsService project) :=
  ⟨fun _ _ _ => h.services, fun _ _ _ => IsService.unique⟩

theorem serves_of_built (h : Checked project) (hbuilt : ComponentBuilt project component spec)
    (hdeclared : Declared component) {trigger : TriggerSpec} (htrigger : trigger ∈ spec.triggers) :
    Serves spec trigger := by
  obtain ⟨declaration, hdeclaration, hb⟩ := forall₂_mem_right hbuilt.triggers htrigger
  obtain ⟨hreaders, hservers⟩ := hdeclared declaration hdeclaration
  refine ⟨hb.valid, fun hkind hnil => ?_, hb.topicsNodup, fun topic htopic => ?_, ?_, ?_, fun name hname => ?_⟩
  · have hnone := hb.topics
    rw [hnil, List.forall₂_nil_right_iff] at hnone
    exact hb.hasTopic (hb.kind ▸ hkind) hnone
  · obtain ⟨id, hid, hnamed⟩ := forall₂_mem_right hb.topics htopic
    obtain ⟨endpoint, hendpoint, hnamed'⟩ := forall₂_mem_left hbuilt.readers (hreaders hid)
    have hkind : trigger.kind = .data := hb.kind.trans (hb.onlyData (List.ne_nil_of_mem hid))
    have hclaimed : topic ∈ dataClaims spec.triggers :=
      List.mem_flatMap.mpr ⟨trigger, htrigger, by rw [if_pos hkind]; exact htopic⟩
    have hone : 0 < spec.readers.countP fun endpoint => endpoint.topic.name = topic :=
      List.countP_pos_iff.mpr ⟨endpoint, hendpoint, decide_eq_true (hnamed'.unique hnamed)⟩
    have := hbuilt.singleReader topic hclaimed
    omega
  · intro hkind
    rw [hb.tasks]
    exact hb.hasTask (hb.kind ▸ hkind)
  · exact (List.rel_nodup h.isService_biUnique hb.services).mp hb.servicesNodup
  · obtain ⟨id, hid, hnamed⟩ := forall₂_mem_right hb.services hname
    obtain ⟨service, hservice, hnamed'⟩ := forall₂_mem_left hbuilt.servers (hservers hid)
    exact ⟨service, hservice, hnamed'.unique hnamed⟩

theorem serviceClaims_nodup (h : Checked project) (hbuilt : ComponentBuilt project component spec) :
    (serviceClaims spec.triggers).Nodup ↔ ServicesApart component := by
  have hclaims : List.Forall₂ (IsService project) (component.triggers.flatMap (·.services)) (serviceClaims spec.triggers) := by
    refine List.rel_flatMap hbuilt.triggers fun declaration trigger hb => ?_
    by_cases hkind : trigger.kind = .service
    · rw [if_pos hkind]
      exact hb.services
    · have hnil : declaration.services = [] := by
        by_contra hne
        exact hkind (hb.kind.trans (hb.onlyService hne))
      rw [if_neg hkind, hnil]
      exact .nil
  have hnodup : (component.triggers.flatMap (·.services)).Nodup ↔ (serviceClaims spec.triggers).Nodup :=
    List.rel_nodup h.isService_biUnique hclaims
  rw [← hnodup, List.nodup_flatMap]
  constructor
  · intro h
    obtain ⟨-, happart⟩ := h
    exact happart.imp fun hdisjoint id hid hid' => hdisjoint hid hid'
  · intro happart
    refine ⟨fun declaration hdeclaration => ?_, happart.imp fun hdisjoint id hid hid' => hdisjoint id hid hid'⟩
    obtain ⟨trigger, -, hb⟩ := forall₂_mem_left hbuilt.triggers hdeclaration
    exact hb.servicesNodup

theorem validateComponentSpec_eq_ok (h : Checked project) (hbuilt : ComponentBuilt project component spec)
    (hdeclared : Declared component) : validateComponentSpec spec = .ok () ↔ ServicesApart component := by
  rw [validateComponentSpec, then_eq_ok, validateTriggers_eq_ok, ← serviceClaims_nodup h hbuilt]
  constructor
  · intro h
    obtain ⟨-, -, -, hservices, -⟩ := h
    exact hservices
  · intro hservices
    exact ⟨hbuilt.valid, fun trigger ht => validateTrigger_ok (serves_of_built h hbuilt hdeclared ht),
      ⟨hbuilt.topicsApart, fun _ _ => List.not_mem_nil⟩, hservices, fun _ _ => List.not_mem_nil⟩

theorem validateComponentSpec_refuses (h : Checked project) (hbuilt : ComponentBuilt project component spec)
    (hdeclared : Declared component) : Refuses (validateComponentSpec spec) := by
  rw [validateComponentSpec, hbuilt.valid]
  exact validateTriggers_refuses fun trigger ht => validateTrigger_ok (serves_of_built h hbuilt hdeclared ht)

/-! ## The runtime -/

/-- The entries that the specs make in a registry. -/
def entriesOf (specs : List ComponentSpec) : List (Name × ComponentSpec) := specs.map fun spec => (spec.name, spec)

theorem registerSpecs_ok {components : List ComponentConfig} {specs : List ComponentSpec} {runtime : ComponentRegistry}
    (hspecs : List.Forall₂ (fun component spec => component.toComponentSpec project = .ok spec) components specs)
    (hnames : ((entriesOf specs).map Prod.fst).Nodup)
    (hfresh : ∀ e ∈ entriesOf specs, ∀ e' ∈ runtime.entries, e'.1 ≠ e.1) :
    project.registerSpecs components runtime =
      .ok ((entriesOf specs).foldl (fun m e => m.insert e.1 e.2) runtime) := by
  induction hspecs generalizing runtime with
  | nil => rfl
  | @cons component spec components specs hspec _ ih =>
    have hnone : runtime.find? spec.name = none :=
      SortedMap.find?_eq_none.mpr (hfresh (spec.name, spec) List.mem_cons_self)
    have hregister : runtime.register spec = .ok (runtime.insert spec.name spec) := by
      rw [ComponentRegistry.register, then_eq_ok]
      refine ⟨(toComponentSpec_built hspec).valid, ?_⟩
      rw [hnone]
      rfl
    rw [ProjectConfig.registerSpecs, bind_eq_ok]
    refine ⟨spec, hspec, bind_eq_ok.mpr ⟨_, hregister, ?_⟩⟩
    exact ih (List.nodup_cons.mp hnames).2 (SortedMap.fresh_insert hnames hfresh)

/-- A valid project in an empty runtime: the registry has its specs, in key order. -/
theorem applyComponentSpecs_ok (h : project.validate = .ok ()) {specs : List ComponentSpec}
    (hspecs : List.Forall₂ (fun component spec => component.toComponentSpec project = .ok spec)
      project.components specs) :
    ∃ runtime, project.applyComponentSpecs .empty = .ok runtime ∧ runtime.entries.Perm (entriesOf specs) := by
  have hnames : ((entriesOf specs).map Prod.fst).Nodup := by
    have hsame : List.Forall₂ (· = ·) (project.components.map (·.name)) ((entriesOf specs).map Prod.fst) := by
      rw [entriesOf, List.map_map, List.forall₂_map_left_iff, List.forall₂_map_right_iff]
      exact hspecs.imp fun _ _ hspec => (toComponentSpec_built hspec).name.symm
    rw [List.forall₂_eq_eq_eq] at hsame
    exact hsame ▸ (checked_of_validate h).names
  have hfresh : ∀ e ∈ entriesOf specs, ∀ e' ∈ (SortedMap.empty : ComponentRegistry).entries, e'.1 ≠ e.1 :=
    fun _ _ _ h => absurd h List.not_mem_nil
  refine ⟨_, ?_, (SortedMap.foldl_insert_perm .empty hnames hfresh).trans (by rw [SortedMap.empty, List.append_nil])⟩
  rw [ProjectConfig.applyComponentSpecs, then_eq_ok, then_eq_ok, forM_eq_ok]
  refine ⟨h, fun component hc => ?_, registerSpecs_ok hspecs hnames hfresh⟩
  obtain ⟨spec, -, hspec⟩ := forall₂_mem_left hspecs hc
  exact bind_eq_ok.mpr ⟨spec, hspec, rfl⟩

/-! ## The scheduler -/

/-- The task graph of the registered specs, in any order, is installed. -/
theorem installTaskTriggers_of_checked (h : Checked project) {specs : List ComponentSpec}
    (hspecs : List.Forall₂ (fun component spec => component.toComponentSpec project = .ok spec) project.components specs)
    {entries : List (Name × ComponentSpec)} (hperm : entries.Perm (entriesOf specs))
    (hnames : (entries.map Prod.fst).Nodup) :
    ∃ graph, installTaskTriggers (entries.map fun entry => (entry.1, entry.2.triggers)) = .ok graph := by
  obtain ⟨rank, hrank⟩ := h.tasks
  -- an entry is that of a declared component, and so are its triggers
  have hof : ∀ entry ∈ entries, ∃ component ∈ project.components, entry.1 = component.name ∧
      List.Forall₂ (TriggerBuilt project) component.triggers entry.2.triggers := by
    intro entry hentry
    obtain ⟨spec, hspec, rfl⟩ := List.mem_map.mp (hperm.mem_iff.mp hentry)
    obtain ⟨component, hc, hbuilt⟩ := forall₂_mem_right hspecs hspec
    exact ⟨component, hc, (toComponentSpec_built hbuilt).name, (toComponentSpec_built hbuilt).triggers⟩
  have hregistered : ∀ component ∈ project.components,
      component.name ∈ (entries.map fun entry => (entry.1, entry.2.triggers)).map Prod.fst := by
    intro component hc
    obtain ⟨spec, hspec, hbuilt⟩ := forall₂_mem_left hspecs hc
    rw [List.map_map]
    exact List.mem_map.mpr ⟨(spec.name, spec), hperm.mem_iff.mpr (List.mem_map_of_mem hspec),
      (toComponentSpec_built hbuilt).name⟩
  have hups : ∀ c ∈ entries.map (fun entry => (entry.1, entry.2.triggers)), ∀ trigger ∈ c.2,
      trigger.kind = .taskDependency → trigger.taskDependencies ≠ [] ∧
        Upstreams (project.components.map (·.name)) c.1 trigger.taskDependencies ∧
          ∀ upstream ∈ trigger.taskDependencies, rank upstream < rank c.1 := by
    intro c hc trigger htrigger hkind
    obtain ⟨entry, hentry, rfl⟩ := List.mem_map.mp hc
    obtain ⟨component, hcomponent, hname, hbuilt⟩ := hof entry hentry
    obtain ⟨declaration, hdeclaration, hb⟩ := forall₂_mem_right hbuilt htrigger
    have hkind' : declaration.kind = .taskDependency := hb.kind ▸ hkind
    rw [hb.tasks]
    simp only [hname]
    exact ⟨hb.hasTask hkind', hrank component hcomponent declaration hdeclaration hkind'⟩
  refine installTaskTriggers_ok ?_ ?_ ⟨rank, ?_⟩
  · rw [List.map_map]
    exact hnames
  · intro c hc trigger htrigger hkind
    obtain ⟨hsome, hup, -⟩ := hups c hc trigger htrigger hkind
    refine ⟨hsome, hup.nodup, hup.other, fun upstream hu => ?_⟩
    obtain ⟨component, hcomponent, hname⟩ := List.mem_map.mp (hup.known upstream hu)
    exact hname ▸ hregistered component hcomponent
  · intro edge hedge
    obtain ⟨c, hc, hedge⟩ := List.mem_flatMap.mp hedge
    obtain ⟨trigger, htrigger, hedge⟩ := List.mem_flatMap.mp hedge
    unfold edgesOfTrigger at hedge
    split at hedge
    · next hkind =>
      obtain ⟨upstream, hu, rfl⟩ := List.mem_map.mp hedge
      exact (hups c hc trigger htrigger hkind).2.2 upstream hu
    · cases hedge

/-- A valid project is registered, scheduled and its task graph installed exactly when no two
    triggers of a component list the same service. -/
theorem schedulable_iff (project : ProjectConfig) (h : project.validate = .ok ()) :
    (∃ graph, project.schedule = .ok graph) ↔ ∀ component ∈ project.components, ServicesApart component := by
  have hchecked := checked_of_validate h
  obtain ⟨specs, hspecs⟩ := exists_forall₂ fun component hc =>
    (hchecked.components component hc).imp fun _ => And.left
  obtain ⟨runtime, hruntime, hperm⟩ := applyComponentSpecs_ok h hspecs
  have hfound : ∀ e ∈ runtime.entries, runtime.find e.1 = .ok e.2 := by
    intro e he
    rw [ComponentRegistry.find, SortedMap.find?_of_mem he]
  have hbuilt : ∀ component ∈ project.components, ∃ spec, (spec.name, spec) ∈ runtime.entries ∧
      ComponentBuilt project component spec ∧ Declared component := by
    intro component hc
    obtain ⟨spec, hspec, hb⟩ := forall₂_mem_left hspecs hc
    obtain ⟨-, -, hdeclared⟩ := hchecked.components component hc
    exact ⟨spec, hperm.mem_iff.mpr (List.mem_map_of_mem hspec), toComponentSpec_built hb, hdeclared⟩
  constructor
  · rintro ⟨graph, hschedule⟩ component hc
    obtain ⟨spec, hentry, hb, hdeclared⟩ := hbuilt component hc
    obtain ⟨runtime', hruntime', hschedule⟩ := bind_eq_ok.mp hschedule
    cases hruntime.symm.trans hruntime'
    obtain ⟨registered, hregistered, -⟩ := bind_eq_ok.mp hschedule
    rw [← validateComponentSpec_eq_ok hchecked hb hdeclared]
    cases hvalid : validateComponentSpec spec with
    | ok u => rfl
    | error status =>
      have hcode := validateComponentSpec_refuses hchecked hb hdeclared status hvalid
      exact absurd hregistered (registerNames_refused hfound hentry hvalid hcode registered)
  · intro happart
    have hvalid : ∀ e ∈ runtime.entries, validateComponentSpec e.2 = .ok () := by
      intro e he
      obtain ⟨spec, hspec, rfl⟩ := List.mem_map.mp (hperm.mem_iff.mp he)
      obtain ⟨component, hc, hb⟩ := forall₂_mem_right hspecs hspec
      obtain ⟨-, -, hdeclared⟩ := hchecked.components component hc
      exact (validateComponentSpec_eq_ok hchecked (toComponentSpec_built hb) hdeclared).mpr (happart component hc)
    have hregister := registerNames_ok (s := {}) hfound runtime.keys_nodup rfl
      (fun _ _ _ h => absurd h List.not_mem_nil) hvalid
    rw [SortedMap.foldl_insert_entries] at hregister
    obtain ⟨graph, hgraph⟩ := installTaskTriggers_of_checked hchecked hspecs hperm runtime.keys_nodup
    exact ⟨graph, bind_eq_ok.mpr ⟨runtime, hruntime, bind_eq_ok.mpr ⟨_, hregister, hgraph⟩⟩⟩

/-- A camera that a filter waits for, and a store with a trigger for each of its two services. -/
def cameraProject : ProjectConfig where
  topics := [{ id := [105], name := [47, 105], messageType := [73] }]
  services :=
    [{ id := [103], name := [47, 103], requestType := [81], replyType := [65] },
     { id := [112], name := [47, 112], requestType := [81], replyType := [65] }]
  components :=
    [{ name := [102], readers := [[105]],
       triggers := [{ kind := .data, dataTopics := [[105]] }, { kind := .taskDependency, taskDependencies := [[99]] }] },
     { name := [99], writers := [[105]], triggers := [{ kind := .periodic, period := 10 }] },
     { name := [115], servers := [[103], [112]], clients := [[103]],
       triggers := [{ kind := .service, services := [[112]] }, { kind := .service, services := [[103]] }] }]

theorem the_camera_project_is_scheduled :
    cameraProject.validate = .ok () ∧ ∃ graph, cameraProject.schedule = .ok graph := by
  have hvalid : cameraProject.validate = .ok () := by decide +kernel
  exact ⟨hvalid, (schedulable_iff cameraProject hvalid).mpr (by decide +kernel)⟩

/-- One component, one service, and two triggers for it. -/
def twiceTriggered : ProjectConfig where
  services := [{ id := [115], name := [115], requestType := [81], replyType := [65] }]
  components :=
    [{ name := [99], servers := [[115]],
       triggers := [{ kind := .service, services := [[115]] }, { kind := .service, services := [[115]] }] }]

/-- The project is valid; registering its component is refused. -/
theorem a_service_with_two_triggers_is_refused :
    twiceTriggered.validate = .ok () ∧ ¬ ∃ graph, twiceTriggered.schedule = .ok graph := by
  have hrefused : twiceTriggered.schedule =
      .error (.error .invalidArgument (text "component c triggers 0 and 1 share service s")) := by decide +kernel
  refine ⟨by decide +kernel, ?_⟩
  intro h
  obtain ⟨graph, hok⟩ := h
  rw [hrefused] at hok
  cases hok

end PuppetMaster.Configuration
