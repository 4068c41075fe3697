/-
  PuppetMaster.Configuration.TaskAgreement — the two checks of a task graph.

  `ValidateTaskDependencies` looks at a project's declarations, `InstallTaskTriggers` at the
  triggers that were registered from them, each with its own topological sort. Both accept
  what `Upstreams` and the absence of cycles say (`validateTaskDependencies_iff`,
  `installTaskTriggers_iff`); the second also wants a dependency in every trigger, which the first leaves to the conversion
  of the trigger. So on the same declarations they agree up to that
  (`installTaskTriggers_agrees`, `an_empty_trigger_passes_one_check`).
-/

import PuppetMaster.Configuration.Checked
import PuppetMaster.Scheduler.TaskAcceptance

namespace PuppetMaster.Configuration

open PuppetMaster.Core PuppetMaster.Lib PuppetMaster.Scheduler

variable {component : ComponentConfig} {components : List ComponentConfig}

/-! ## The same declarations, registered -/

/-- A trigger as it is registered: names are kept as they are written. -/
structure SameTasks (declaration : TriggerConfig) (trigger : TriggerSpec) : Prop where
  kind : trigger.kind = declaration.kind
  dependencies : trigger.taskDependencies = declaration.taskDependencies

def Declares (component : ComponentConfig) (entry : Name × List TriggerSpec) : Prop :=
  entry.1 = component.name ∧ List.Forall₂ SameTasks component.triggers entry.2

/-- What the conversion of a component registers is what it declares, and leaves no task trigger empty. -/
theorem toComponentSpec_declares {project : ProjectConfig} {spec : Runtime.ComponentSpec}
    (h : component.toComponentSpec project = .ok spec) :
    Declares component (spec.name, spec.triggers)
      ∧ ∀ trigger ∈ component.triggers, trigger.kind = .taskDependency → trigger.taskDependencies ≠ [] := by
  have hbuilt := toComponentSpec_built h
  refine ⟨⟨hbuilt.name, hbuilt.triggers.imp fun _ _ hb => ⟨hb.kind, hb.tasks⟩⟩, ?_⟩
  intro trigger ht
  obtain ⟨spec, -, hb⟩ := forall₂_mem_left hbuilt.triggers ht
  exact hb.hasTask

theorem mem_edgesOf {registered : List (Name × List TriggerSpec)} {edge : Name × Name} :
    edge ∈ edgesOf registered ↔ ∃ c ∈ registered, ∃ trigger ∈ c.2,
      trigger.kind = .taskDependency ∧ edge.1 ∈ trigger.taskDependencies ∧ edge.2 = c.1 := by
  unfold edgesOf edgesOfTrigger
  simp only [List.mem_flatMap]
  constructor
  · intro h
    obtain ⟨c, hc, trigger, ht, hedge⟩ := h
    by_cases hkind : trigger.kind = .taskDependency
    · rw [if_pos hkind] at hedge
      obtain ⟨upstream, hu, rfl⟩ := List.mem_map.mp hedge
      exact ⟨c, hc, trigger, ht, hkind, hu, rfl⟩
    · rw [if_neg hkind] at hedge
      cases hedge
  · intro h
    obtain ⟨c, hc, trigger, ht, hkind, hu, hname⟩ := h
    refine ⟨c, hc, trigger, ht, ?_⟩
    rw [if_pos hkind, ← hname]
    exact List.mem_map_of_mem hu

variable {entries registered : List (Name × List TriggerSpec)}

/-- What holds of every declared task trigger holds of every registered one, and the other way round. -/
theorem declares_triggers_iff (h : List.Forall₂ Declares components entries) (hperm : registered.Perm entries)
    {P : Name → List Name → Prop} :
    (∀ c ∈ registered, ∀ trigger ∈ c.2, trigger.kind = .taskDependency → P c.1 trigger.taskDependencies)
      ↔ ∀ component ∈ components, ∀ trigger ∈ component.triggers, trigger.kind = .taskDependency →
        P component.name trigger.taskDependencies := by
  constructor
  · intro hall component hc declaration hd hkind
    obtain ⟨entry, hentry, hname, htriggers⟩ := forall₂_mem_left h hc
    obtain ⟨trigger, ht, hsame⟩ := forall₂_mem_left htriggers hd
    have hp := hall entry (hperm.mem_iff.mpr hentry) trigger ht (hsame.kind.trans hkind)
    rwa [hname, hsame.dependencies] at hp
  · intro hall entry hentry trigger ht hkind
    obtain ⟨component, hc, hname, htriggers⟩ := forall₂_mem_right h (hperm.mem_iff.mp hentry)
    obtain ⟨declaration, hd, hsame⟩ := forall₂_mem_right htriggers ht
    have hp := hall component hc declaration hd (hsame.kind.symm.trans hkind)
    rwa [← hname, ← hsame.dependencies] at hp

theorem installTaskTriggers_agrees (hnames : (registered.map Prod.fst).Nodup)
    (h : List.Forall₂ Declares components entries) (hperm : registered.Perm entries) :
    (∃ graph, installTaskTriggers registered = .ok graph)
      ↔ validateTaskDependencies components = .ok ()
        ∧ ∀ component ∈ components, ∀ trigger ∈ component.triggers, trigger.kind = .taskDependency →
          trigger.taskDependencies ≠ [] := by
  have hsame : entries.map Prod.fst = components.map (·.name) := by
    have hall : List.Forall₂ (· = ·) (entries.map Prod.fst) (components.map (·.name)) := by
      rw [List.forall₂_map_left_iff, List.forall₂_map_right_iff]
      exact h.flip.imp fun _ _ hd => hd.1
    rwa [List.forall₂_eq_eq_eq] at hall
  have hregistered : (registered.map Prod.fst).Perm (components.map (·.name)) := hsame ▸ hperm.map Prod.fst
  have hdepends : (∀ c ∈ registered, ∀ trigger ∈ c.2, trigger.kind = .taskDependency →
        Depends (registered.map Prod.fst) c.1 trigger)
      ↔ AllUpstreams components ∧ ∀ component ∈ components, ∀ trigger ∈ component.triggers,
        trigger.kind = .taskDependency → trigger.taskDependencies ≠ [] := by
    have hiff := declares_triggers_iff (P := fun name dependencies => dependencies ≠ []
      ∧ Upstreams (components.map (·.name)) name dependencies) h hperm
    constructor
    · intro hall
      have hboth := hiff.mp fun c hc trigger ht hkind => by
        obtain ⟨hsome, hnodup, hother, hin⟩ := hall c hc trigger ht hkind
        exact ⟨hsome, hnodup, hother, fun u hu => hregistered.mem_iff.mp (hin u hu)⟩
      exact ⟨fun component hc trigger ht hkind => (hboth component hc trigger ht hkind).2,
        fun component hc trigger ht hkind => (hboth component hc trigger ht hkind).1⟩
    · intro hall c hc trigger ht hkind
      obtain ⟨hsome, hups⟩ := hiff.mpr
        (fun component hc trigger ht hkind => ⟨hall.2 component hc trigger ht hkind, hall.1 component hc trigger ht hkind⟩)
        c hc trigger ht hkind
      exact ⟨hsome, hups.nodup, hups.other, fun u hu => hregistered.mem_iff.mpr (hups.known u hu)⟩
  have hedges (rank : Name → Nat) : (∀ edge ∈ edgesOf registered, rank edge.1 < rank edge.2)
      ↔ ∀ edge ∈ declaredEdges components, rank edge.1 < rank edge.2 := by
    have hiff := declares_triggers_iff (P := fun name dependencies => ∀ u ∈ dependencies, rank u < rank name) h hperm
    constructor
    · intro hall edge hedge
      obtain ⟨component, hc, trigger, ht, hkind, hu, hname⟩ := mem_declaredEdges.mp hedge
      rw [hname]
      refine hiff.mp ?_ component hc trigger ht hkind edge.1 hu
      intro c hc trigger ht hkind u hu
      exact hall (u, c.1) (mem_edgesOf.mpr ⟨c, hc, trigger, ht, hkind, hu, rfl⟩)
    · intro hall edge hedge
      obtain ⟨c, hc, trigger, ht, hkind, hu, hname⟩ := mem_edgesOf.mp hedge
      rw [hname]
      refine hiff.mpr ?_ c hc trigger ht hkind edge.1 hu
      intro component hc trigger ht hkind u hu
      exact hall (u, component.name) (mem_declaredEdges.mpr ⟨component, hc, trigger, ht, hkind, hu, rfl⟩)
  have hcycles : Acyclic (edgesOf registered) ↔ Acyclic (declaredEdges components) := by
    rw [← exists_rank_iff, ← exists_rank_iff]
    exact exists_congr hedges
  rw [installTaskTriggers_iff hnames, validateTaskDependencies_iff (hregistered.nodup_iff.mp hnames), hdepends, hcycles]
  constructor
  · intro hall
    exact ⟨⟨hall.1.1, hall.2⟩, hall.1.2⟩
  · intro hall
    exact ⟨⟨hall.1.1, hall.2⟩, hall.1.2⟩

/-! ## Acceptance -/

/-- What is accepted, what a refusal leaves, what is installed, and what the project's check says of it. -/
theorem task_graph_acceptance {s : State} (hnames : (s.components.map (·.name)).Nodup) :
    ((installTasks s).1 = .ok
      ↔ (∀ c ∈ s.components, ∀ trigger ∈ c.triggers, trigger.kind = .taskDependency →
          Depends (s.components.map (·.name)) c.name trigger)
        ∧ Acyclic (edgesOf (specs s.components)))
    ∧ ((installTasks s).1 ≠ .ok → (installTasks s).2 = s)
    ∧ ((installTasks s).1 = .ok →
      (∀ d, d ∈ (installTasks s).2.taskDependents ↔ ∃ c ∈ s.components, ∃ trigger, c.name = d.component
        ∧ (taskTriggers c.triggers)[d.triggerIndex]? = some trigger
        ∧ trigger.taskDependencies[d.dependencyIndex]? = some d.upstream)
      ∧ (installTasks s).2.taskDependents.Nodup
      ∧ ∀ d ∈ (installTasks s).2.taskDependents, ∃ c ∈ (installTasks s).2.components, c.name = d.component
        ∧ ∃ state, c.taskTriggers[d.triggerIndex]? = some state ∧ d.dependencyIndex < state.ready.length)
    ∧ ∀ (declared : List ComponentConfig) (entries : List (Name × List TriggerSpec)),
      List.Forall₂ Declares declared entries → (specs s.components).Perm entries →
        ((installTasks s).1 = .ok
          ↔ validateTaskDependencies declared = .ok ()
            ∧ ∀ component ∈ declared, ∀ trigger ∈ component.triggers, trigger.kind = .taskDependency →
              trigger.taskDependencies ≠ []) := by
  have hspecs : ((specs s.components).map Prod.fst).Nodup := by
    rw [specs_fst]
    exact hnames
  refine ⟨?_, installTasks_refused, ?_, ?_⟩
  · rw [installTasks_ok_iff, installTaskTriggers_iff hspecs, specs_fst]
    have hall : (∀ c ∈ specs s.components, ∀ trigger ∈ c.2, trigger.kind = .taskDependency →
          Depends (s.components.map (·.name)) c.1 trigger)
        ↔ ∀ c ∈ s.components, ∀ trigger ∈ c.triggers, trigger.kind = .taskDependency →
          Depends (s.components.map (·.name)) c.name trigger := List.forall_mem_map
    rw [hall]
  · intro hok
    obtain ⟨hmem, hnodup, hstates⟩ := installTasks_installed hnames hok
    refine ⟨hmem, hnodup, ?_⟩
    intro d hd
    obtain ⟨c, hc, trigger, hname, htrigger, hdependency⟩ := (hmem d).mp hd
    obtain ⟨c', hc', hname', htriggers'⟩ : ∃ c' ∈ (installTasks s).2.components,
        c'.name = c.name ∧ c'.triggers = c.triggers := by
      obtain ⟨graph, hgraph⟩ := installTasks_ok_iff.mp hok
      simp only [installTasks, hgraph]
      exact ⟨_, List.mem_map_of_mem hc, rfl, rfl⟩
    refine ⟨c', hc', hname'.trans hname, taskState trigger, ?_, ?_⟩
    · rw [hstates c' hc', htriggers', List.getElem?_map, htrigger]
      rfl
    · obtain ⟨hlt, -⟩ := List.getElem?_eq_some_iff.mp hdependency
      simpa [taskState, TriggerState.ofSpec] using hlt
  · intro declared entries hdeclares hperm
    rw [installTasks_ok_iff]
    exact installTaskTriggers_agrees hspecs hdeclares hperm

/-- A diamond: `d` waits for `b` and for `c`, and these for `a`. -/
def diamondDeclared : List ComponentConfig :=
  [{ name := [97] }, { name := [98], triggers := [{ kind := .taskDependency, taskDependencies := [[97]] }] },
    { name := [99], triggers := [{ kind := .taskDependency, taskDependencies := [[97]] }] },
    { name := [100], triggers := [{ kind := .taskDependency, taskDependencies := [[98], [99]] }] }]

def diamond : State :=
  { initial 0 with
    components :=
      [{ name := [97], triggers := [] },
        { name := [98], triggers := [{ kind := .taskDependency, taskDependencies := [[97]] }] },
        { name := [99], triggers := [{ kind := .taskDependency, taskDependencies := [[97]] }] },
        { name := [100], triggers := [{ kind := .taskDependency, taskDependencies := [[98], [99]] }] }] }

theorem a_diamond_is_accepted :
    Acyclic (edgesOf (specs diamond.components)) ∧ (installTasks diamond).2.taskDependents.Nodup
      ∧ validateTaskDependencies diamondDeclared = .ok () := by
  obtain ⟨haccepts, -, hinstalls, hagrees⟩ := task_graph_acceptance (s := diamond) (by decide)
  have hok : (installTasks diamond).1 = .ok := by decide +kernel
  have hdeclares : List.Forall₂ Declares diamondDeclared (specs diamond.components) := by
    refine .cons ⟨rfl, .nil⟩ (.cons ⟨rfl, .cons ⟨rfl, rfl⟩ .nil⟩ (.cons ⟨rfl, .cons ⟨rfl, rfl⟩ .nil⟩
      (.cons ⟨rfl, .cons ⟨rfl, rfl⟩ .nil⟩ .nil)))
  exact ⟨(haccepts.mp hok).2, (hinstalls hok).2.1, ((hagrees _ _ hdeclares (.refl _)).mp hok).1⟩

/-- One component whose task trigger has no dependency. -/
def emptyDeclared : List ComponentConfig := [{ name := [97], triggers := [{ kind := .taskDependency }] }]

def emptyTriggered : State :=
  { initial 0 with components := [{ name := [97], triggers := [{ kind := .taskDependency }] }] }

theorem an_empty_trigger_passes_one_check :
    (∀ component ∈ emptyDeclared, (validateName "component name" component.name).isOk = true)
      ∧ List.Forall₂ Declares emptyDeclared (specs emptyTriggered.components)
      ∧ validateTaskDependencies emptyDeclared = .ok () ∧ (installTasks emptyTriggered).1 = noTaskDependency
      ∧ ¬ ((installTasks emptyTriggered).1 = .ok ↔ validateTaskDependencies emptyDeclared = .ok ()) := by
  have hvalid : validateTaskDependencies emptyDeclared = .ok () := by decide +kernel
  have hrefused : (installTasks emptyTriggered).1 = noTaskDependency := by decide +kernel
  refine ⟨by decide +kernel, .cons ⟨rfl, .cons ⟨rfl, rfl⟩ .nil⟩ .nil, hvalid, hrefused, ?_⟩
  intro h
  have hok := h.mpr hvalid
  rw [hrefused] at hok
  exact absurd hok (by decide +kernel)

end PuppetMaster.Configuration
