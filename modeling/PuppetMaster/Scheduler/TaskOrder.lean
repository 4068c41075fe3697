/-
  PuppetMaster.Scheduler.TaskOrder — when `InstallTaskTriggers` succeeds.

  `sortTasks` is the topological sort of the library over the edges of the dependents
  (`sortTasks_eq_sort`). The installation succeeds when every dependency is to another
  registered component, at most once for each trigger, and the components can be ranked
  such that every dependency goes up (`installTaskTriggers_ok`).
-/

import PuppetMaster.Lib.TopologicalSort
import PuppetMaster.Scheduler.TaskGraph

namespace PuppetMaster.Scheduler

open PuppetMaster.Core

/-- From the upstream to the component that waits for it. -/
def TaskDependent.edge (dependent : TaskDependent) : Name × Name := (dependent.upstream, dependent.component)

theorem dependentsOf_components (dependents : List TaskDependent) (upstream : Name) :
    (dependentsOf dependents upstream).map (·.component) = Lib.targetsOf (dependents.map TaskDependent.edge) upstream := by
  rw [Lib.targetsOf, List.filter_map, List.map_map]
  rfl

theorem release_eq_release (dependents : List TaskDependent) (indegree : Indegree) (ready : List Name) :
    release dependents indegree ready = Lib.release (dependents.map (·.component)) indegree ready := by
  induction dependents generalizing indegree ready with
  | nil => rfl
  | cons dependent rest ih =>
    rw [release, List.map_cons, Lib.release]
    exact ih _ _

theorem sortTasks_eq_sort (dependents : List TaskDependent) (fuel : Nat) (indegree : Indegree) (ready : List Name)
    (visited : Nat) :
    sortTasks dependents fuel indegree ready visited =
      Lib.sort (dependents.map TaskDependent.edge) fuel indegree ready visited := by
  induction fuel generalizing indegree ready visited with
  | zero => rfl
  | succ fuel ih =>
    cases ready with
    | nil => rfl
    | cons upstream rest =>
      rw [sortTasks, Lib.sort, release_eq_release, dependentsOf_components]
      exact ih _ _ _

theorem indegreeOf_eq_degreesOf (registered : List Name) (dependents : List TaskDependent) :
    indegreeOf registered dependents = Lib.degreesOf registered (dependents.map TaskDependent.edge) := by
  unfold indegreeOf Lib.degreesOf
  simp only [List.countP_map]
  rfl

/-! ## The loops -/

/-- A trigger's dependencies are on other registered components, each named once. -/
structure Depends (registered : List Name) (name : Name) (trigger : TriggerSpec) : Prop where
  some : trigger.taskDependencies ≠ []
  nodup : trigger.taskDependencies.Nodup
  other : ∀ upstream ∈ trigger.taskDependencies, upstream ≠ name
  registered : ∀ upstream ∈ trigger.taskDependencies, upstream ∈ registered

def edgesOfTrigger (name : Name) (trigger : TriggerSpec) : List (Name × Name) :=
  if trigger.kind = .taskDependency then trigger.taskDependencies.map fun upstream => (upstream, name) else []

def edgesOf (components : List (Name × List TriggerSpec)) : List (Name × Name) :=
  components.flatMap fun component => component.2.flatMap (edgesOfTrigger component.1)

variable {registered : List Name} {name : Name}

theorem addDependencies_ok {triggerIndex : Nat} {dependencies seen : List Name} {index : Nat} {graph : TaskGraph}
    (hnodup : dependencies.Nodup) (hother : ∀ upstream ∈ dependencies, upstream ≠ name ∧ upstream ∉ seen)
    (hregistered : ∀ upstream ∈ dependencies, upstream ∈ registered) :
    ∃ graph', addDependencies registered name triggerIndex dependencies index seen graph = .ok graph' ∧
      graph'.dependents.map TaskDependent.edge =
        graph.dependents.map TaskDependent.edge ++ dependencies.map fun upstream => (upstream, name) := by
  induction dependencies generalizing index seen graph with
  | nil => exact ⟨graph, rfl, by simp⟩
  | cons upstream rest ih =>
    obtain ⟨hnot, hrest⟩ := List.nodup_cons.mp hnodup
    have hfirst := hother upstream List.mem_cons_self
    have hother' : ∀ u ∈ rest, u ≠ name ∧ u ∉ upstream :: seen := by
      intro u hu
      have := hother u (List.mem_cons_of_mem _ hu)
      exact ⟨this.1, fun hin => (List.mem_cons.mp hin).elim (fun e => hnot (e ▸ hu)) this.2⟩
    obtain ⟨graph', hadd, hedges⟩ := ih hrest hother' fun u hu => hregistered u (List.mem_cons_of_mem _ hu)
    refine ⟨graph', ?_, ?_⟩
    · rw [addDependencies, if_neg (not_or.mpr hfirst), if_neg (not_not.mpr (hregistered upstream List.mem_cons_self))]
      exact hadd
    · rw [hedges, List.map_append, List.append_assoc]
      rfl

theorem addTrigger_ok {trigger : TriggerSpec} (graph : TaskGraph)
    (h : trigger.kind = .taskDependency → Depends registered name trigger) :
    ∃ graph', addTrigger registered name trigger graph = .ok graph' ∧
      graph'.dependents.map TaskDependent.edge = graph.dependents.map TaskDependent.edge ++ edgesOfTrigger name trigger := by
  unfold addTrigger edgesOfTrigger
  by_cases hkind : trigger.kind = .taskDependency
  · obtain ⟨hsome, hnodup, hother, hregistered⟩ := h hkind
    rw [if_neg (not_not.mpr hkind), if_neg hsome, if_pos hkind]
    exact addDependencies_ok hnodup (fun u hu => ⟨hother u hu, List.not_mem_nil⟩) hregistered
  · rw [if_pos hkind, if_neg hkind]
    exact ⟨graph, rfl, by simp⟩

theorem addTriggers_ok {triggers : List TriggerSpec} (graph : TaskGraph)
    (h : ∀ trigger ∈ triggers, trigger.kind = .taskDependency → Depends registered name trigger) :
    ∃ graph', addTriggers registered name triggers graph = .ok graph' ∧
      graph'.dependents.map TaskDependent.edge =
        graph.dependents.map TaskDependent.edge ++ triggers.flatMap (edgesOfTrigger name) := by
  induction triggers generalizing graph with
  | nil => exact ⟨graph, rfl, by simp⟩
  | cons trigger rest ih =>
    obtain ⟨next, hnext, hedges⟩ := addTrigger_ok graph (h trigger List.mem_cons_self)
    obtain ⟨graph', hrest, hedges'⟩ := ih next fun t ht => h t (List.mem_cons_of_mem _ ht)
    refine ⟨graph', ?_, ?_⟩
    · rw [addTriggers, hnext]
      exact hrest
    · rw [hedges', hedges, List.flatMap_cons, List.append_assoc]

theorem addComponents_ok {components : List (Name × List TriggerSpec)} (graph : TaskGraph)
    (h : ∀ c ∈ components, ∀ trigger ∈ c.2, trigger.kind = .taskDependency → Depends registered c.1 trigger) :
    ∃ graph', addComponents registered components graph = .ok graph' ∧
      graph'.dependents.map TaskDependent.edge = graph.dependents.map TaskDependent.edge ++ edgesOf components := by
  induction components generalizing graph with
  | nil => exact ⟨graph, rfl, by simp [edgesOf]⟩
  | cons c rest ih =>
    obtain ⟨next, hnext, hedges⟩ := addTriggers_ok graph (h c List.mem_cons_self)
    obtain ⟨graph', hrest, hedges'⟩ := ih next fun d hd => h d (List.mem_cons_of_mem _ hd)
    refine ⟨graph', ?_, ?_⟩
    · rw [addComponents, hnext]
      exact hrest
    · rw [hedges', hedges, List.append_assoc]
      rfl

/-! ## The installation -/

/-- An edge joins two of the components. -/
theorem edgesOf_registered {components : List (Name × List TriggerSpec)}
    (h : ∀ c ∈ components, ∀ trigger ∈ c.2, trigger.kind = .taskDependency →
      Depends (components.map Prod.fst) c.1 trigger) :
    ∀ edge ∈ edgesOf components, edge.1 ∈ components.map Prod.fst ∧ edge.2 ∈ components.map Prod.fst := by
  intro edge hedge
  obtain ⟨c, hc, hedge⟩ := List.mem_flatMap.mp hedge
  obtain ⟨trigger, ht, hedge⟩ := List.mem_flatMap.mp hedge
  unfold edgesOfTrigger at hedge
  split at hedge
  · next hkind =>
    obtain ⟨upstream, hup, rfl⟩ := List.mem_map.mp hedge
    exact ⟨(h c hc trigger ht hkind).registered upstream hup, List.mem_map_of_mem hc⟩
  · cases hedge

theorem installTaskTriggers_ok {components : List (Name × List TriggerSpec)} (hnames : (components.map Prod.fst).Nodup)
    (h : ∀ c ∈ components, ∀ trigger ∈ c.2, trigger.kind = .taskDependency →
      Depends (components.map Prod.fst) c.1 trigger)
    (hrank : ∃ rank : Name → Nat, ∀ edge ∈ edgesOf components, rank edge.1 < rank edge.2) :
    ∃ graph, installTaskTriggers components = .ok graph := by
  obtain ⟨graph, hadd, hedges⟩ := addComponents_ok .empty h
  have hgraph : graph.dependents.map TaskDependent.edge = edgesOf components := hedges
  have hlen : (components.map Prod.fst).length ≤ components.length + graph.dependents.length := by
    rw [List.length_map]
    omega
  have hsort := (Lib.sort_eq_length_iff hnames (edgesOf_registered h) hlen).mpr hrank
  refine ⟨graph, ?_⟩
  unfold installTaskTriggers
  simp only [hadd, Except.bind]
  rw [sortTasks_eq_sort, indegreeOf_eq_degreesOf, hgraph]
  rw [List.length_map] at hsort
  exact if_neg (not_not.mpr hsort)

end PuppetMaster.Scheduler
