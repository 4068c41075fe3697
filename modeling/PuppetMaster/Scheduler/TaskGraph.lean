/-
  PuppetMaster.Scheduler.TaskGraph — `InstallTaskTriggers`.

  For every registered component, in key order, and every task-dependency trigger, in
  declaration order, `addTrigger` records the trigger's state and one `TaskDependent` for
  each dependency; `sortTasks` then counts the components a topological order can visit.
  The maps of the source that are keyed by upstream or by component are flat lists here,
  in insertion order; `dependentsOf` is the vector found under one key.

  `TaskGraph.Sound`: every dependent points at a state of a registered component that has
  the dependency. Each step of the installation keeps it (`installTaskTriggers_sound`).
-/

import Mathlib.Data.List.Basic
import PuppetMaster.Scheduler.Trigger

namespace PuppetMaster.Scheduler

open PuppetMaster.Core

structure TaskDependent where
  upstream : Name
  component : Name
  triggerIndex : Nat
  dependencyIndex : Nat
  deriving DecidableEq, Repr

/-- `dependents` and `states` while they are being built. -/
structure TaskGraph where
  dependents : List TaskDependent
  states : List (Name × TriggerState)
  deriving DecidableEq, Repr

namespace TaskGraph

def empty : TaskGraph := ⟨[], []⟩

/-- `states[name]`. -/
def statesOf (graph : TaskGraph) (name : Name) : List TriggerState :=
  (graph.states.filter fun entry => entry.1 = name).map Prod.snd

end TaskGraph

def dependentsOf (dependents : List TaskDependent) (upstream : Name) : List TaskDependent :=
  dependents.filter fun dependent => dependent.upstream = upstream

def selfOrDuplicate (upstream : Name) : Status :=
  .error .invalidArgument (text "self or duplicate task dependency: " ++ upstream)

def notRegistered (upstream : Name) : Status :=
  .error .invalidArgument (text "task dependency is not registered in scheduler: " ++ upstream)

def noTaskDependency : Status :=
  .error .invalidArgument (text "task dependency trigger requires at least one task dependency")

def taskCycle : Status := .error .invalidArgument (text "task dependency graph contains a cycle")

/-- The loop over one trigger's dependencies, from `index` on. -/
def addDependencies (registered : List Name) (name : Name) (triggerIndex : Nat) :
    List Name → Nat → List Name → TaskGraph → Except Status TaskGraph
  | [], _, _, graph => .ok graph
  | upstream :: rest, index, seen, graph =>
    if upstream = name ∨ upstream ∈ seen then .error (selfOrDuplicate upstream)
    else if upstream ∉ registered then .error (notRegistered upstream)
    else addDependencies registered name triggerIndex rest (index + 1) (upstream :: seen)
      { graph with dependents := graph.dependents ++ [⟨upstream, name, triggerIndex, index⟩] }

def addTrigger (registered : List Name) (name : Name) (trigger : TriggerSpec) (graph : TaskGraph) :
    Except Status TaskGraph :=
  if trigger.kind ≠ .taskDependency then .ok graph
  else if trigger.taskDependencies = [] then .error noTaskDependency
  else addDependencies registered name (graph.statesOf name).length trigger.taskDependencies 0 []
    { graph with states := graph.states ++ [(name, .ofSpec trigger trigger.taskDependencies.length)] }

def addTriggers (registered : List Name) (name : Name) : List TriggerSpec → TaskGraph → Except Status TaskGraph
  | [], graph => .ok graph
  | trigger :: rest, graph => (addTrigger registered name trigger graph).bind (addTriggers registered name rest)

def addComponents (registered : List Name) : List (Name × List TriggerSpec) → TaskGraph → Except Status TaskGraph
  | [], graph => .ok graph
  | (name, triggers) :: rest, graph => (addTriggers registered name triggers graph).bind (addComponents registered rest)

/-! ## The topological sort -/

abbrev Indegree := List (Name × Nat)

def indegreeOf (registered : List Name) (dependents : List TaskDependent) : Indegree :=
  registered.map fun name => (name, dependents.countP fun dependent => dependent.component = name)

/-- `--indegree[name]`, with the value it leaves. -/
def decrement (indegree : Indegree) (name : Name) : Indegree × Nat :=
  let next := indegree.map fun entry => if entry.1 = name then (entry.1, entry.2 - 1) else entry
  (next, ((next.find? fun entry => entry.1 = name).map Prod.snd).getD 0)

def release : List TaskDependent → Indegree → List Name → Indegree × List Name
  | [], indegree, ready => (indegree, ready)
  | dependent :: rest, indegree, ready =>
    let (next, left) := decrement indegree dependent.component
    release rest next (if left = 0 then ready ++ [dependent.component] else ready)

/-- The queue loop; the result is `visited`. The first argument bounds the iterations. -/
def sortTasks (dependents : List TaskDependent) : Nat → Indegree → List Name → Nat → Nat
  | 0, _, _, visited => visited
  | _ + 1, _, [], visited => visited
  | fuel + 1, indegree, upstream :: rest, visited =>
    let (next, ready) := release (dependentsOf dependents upstream) indegree rest
    sortTasks dependents fuel next ready (visited + 1)

/-- `InstallTaskTriggers`, without the assignment of its result to the members. -/
def installTaskTriggers (components : List (Name × List TriggerSpec)) : Except Status TaskGraph :=
  let registered := components.map Prod.fst
  (addComponents registered components .empty).bind fun graph =>
    let indegree := indegreeOf registered graph.dependents
    let ready := (indegree.filter fun entry => entry.2 = 0).map Prod.fst
    if sortTasks graph.dependents (components.length + graph.dependents.length) indegree ready 0 ≠ components.length then
      .error taskCycle
    else .ok graph

/-! ## What the dependents point at -/

/-- The state that the dependent names is there, and has its dependency. -/
def TaskGraph.Covers (graph : TaskGraph) (dependent : TaskDependent) : Prop :=
  ∃ state, (graph.statesOf dependent.component)[dependent.triggerIndex]? = some state
    ∧ dependent.dependencyIndex < state.ready.length

structure TaskGraph.Sound (registered : List Name) (graph : TaskGraph) : Prop where
  registered : ∀ dependent ∈ graph.dependents, dependent.component ∈ registered
  covers : ∀ dependent ∈ graph.dependents, graph.Covers dependent

theorem TaskGraph.empty_sound (registered : List Name) : TaskGraph.empty.Sound registered :=
  ⟨fun _ h => (by cases h), fun _ h => (by cases h)⟩

/-- The states of a component are only added to. -/
theorem TaskGraph.statesOf_push (graph : TaskGraph) (name other : Name) (state : TriggerState) :
    TaskGraph.statesOf { graph with states := graph.states ++ [(name, state)] } other
      = graph.statesOf other ++ if name = other then [state] else [] := by
  unfold statesOf
  rw [List.filter_append, List.map_append]
  by_cases h : name = other
  · simp [h]
  · simp [h]

theorem TaskGraph.Covers.push {graph : TaskGraph} {dependent : TaskDependent} (h : graph.Covers dependent)
    (name : Name) (state : TriggerState) :
    TaskGraph.Covers { graph with states := graph.states ++ [(name, state)] } dependent := by
  obtain ⟨found, hfound, hlt⟩ := h
  refine ⟨found, ?_, hlt⟩
  obtain ⟨hindex, -⟩ := List.getElem?_eq_some_iff.mp hfound
  rw [statesOf_push, List.getElem?_append_left hindex]
  exact hfound

theorem addDependencies_sound {registered : List Name} {name : Name} {triggerIndex : Nat} {state : TriggerState}
    (hname : name ∈ registered) {dependencies : List Name} {index : Nat} {seen : List Name} {graph graph' : TaskGraph}
    (h : addDependencies registered name triggerIndex dependencies index seen graph = .ok graph')
    (hs : graph.Sound registered) (hstate : (graph.statesOf name)[triggerIndex]? = some state)
    (hlen : index + dependencies.length = state.ready.length) : graph'.Sound registered := by
  induction dependencies generalizing index seen graph with
  | nil =>
    cases h
    exact hs
  | cons upstream rest ih =>
    unfold addDependencies at h
    split at h
    · cases h
    · split at h
      · cases h
      · simp only [List.length_cons] at hlen
        refine ih h ⟨fun dependent hd => ?_, fun dependent hd => ?_⟩ hstate (by omega)
        · rcases List.mem_append.mp hd with hd | hd
          · exact hs.registered dependent hd
          · cases List.mem_singleton.mp hd
            exact hname
        · rcases List.mem_append.mp hd with hd | hd
          · exact hs.covers dependent hd
          · cases List.mem_singleton.mp hd
            exact ⟨state, hstate, by show index < state.ready.length; omega⟩

theorem addTrigger_sound {registered : List Name} {name : Name} (hname : name ∈ registered) {trigger : TriggerSpec}
    {graph graph' : TaskGraph} (h : addTrigger registered name trigger graph = .ok graph')
    (hs : graph.Sound registered) : graph'.Sound registered := by
  unfold addTrigger at h
  split at h
  · cases h
    exact hs
  · split at h
    · cases h
    · let state : TriggerState := .ofSpec trigger trigger.taskDependencies.length
      have hstate : (TaskGraph.statesOf { graph with states := graph.states ++ [(name, state)] } name)[
          (graph.statesOf name).length]? = some state := by
        rw [TaskGraph.statesOf_push, if_pos rfl]
        exact List.getElem?_concat_length
      have hpushed : TaskGraph.Sound registered { graph with states := graph.states ++ [(name, state)] } :=
        ⟨hs.registered, fun dependent hd => (hs.covers dependent hd).push name state⟩
      exact addDependencies_sound hname h hpushed hstate (by simp [state, TriggerState.ofSpec])

theorem addTriggers_sound {registered : List Name} {name : Name} (hname : name ∈ registered)
    {triggers : List TriggerSpec} {graph graph' : TaskGraph}
    (h : addTriggers registered name triggers graph = .ok graph') (hs : graph.Sound registered) :
    graph'.Sound registered := by
  induction triggers generalizing graph with
  | nil =>
    cases h
    exact hs
  | cons trigger rest ih =>
    unfold addTriggers at h
    cases hadd : addTrigger registered name trigger graph with
    | error status =>
      rw [hadd] at h
      cases h
    | ok next =>
      rw [hadd] at h
      exact ih h (addTrigger_sound hname hadd hs)

theorem addComponents_sound {registered : List Name} {components : List (Name × List TriggerSpec)}
    (hnames : ∀ c ∈ components, c.1 ∈ registered) {graph graph' : TaskGraph}
    (h : addComponents registered components graph = .ok graph') (hs : graph.Sound registered) :
    graph'.Sound registered := by
  induction components generalizing graph with
  | nil =>
    cases h
    exact hs
  | cons c rest ih =>
    unfold addComponents at h
    cases hadd : addTriggers registered c.1 c.2 graph with
    | error status =>
      simp only [hadd] at h
      cases h
    | ok next =>
      simp only [hadd] at h
      exact ih (fun d hd => hnames d (List.mem_cons_of_mem _ hd)) h
        (addTriggers_sound (hnames c (List.mem_cons_self ..)) hadd hs)

theorem installTaskTriggers_sound {components : List (Name × List TriggerSpec)} {graph : TaskGraph}
    (h : installTaskTriggers components = .ok graph) : graph.Sound (components.map Prod.fst) := by
  unfold installTaskTriggers at h
  dsimp only at h
  cases hadd : addComponents (components.map Prod.fst) components .empty with
  | error status =>
    rw [hadd] at h
    cases h
  | ok built =>
    rw [hadd] at h
    simp only [Except.bind] at h
    split at h
    · cases h
    · cases h
      exact addComponents_sound (fun c hc => List.mem_map_of_mem hc) hadd (TaskGraph.empty_sound _)

end PuppetMaster.Scheduler
