/-
  PuppetMaster.Scheduler.TaskAcceptance — what `InstallTaskTriggers` accepts, and what it installs.

  (1) It succeeds exactly when every task trigger `Depends` on other registered components,
  each named once, and the dependencies have no cycle (`installTaskTriggers_iff`). Several
  triggers may name the same upstream, and several paths may join two components.
  (2) The members are assigned at the end, so a refusal leaves the state as it is
  (`installTasks`, `installTasks_refused`).
  (3) What is installed is the declaration: `Installed` gives the states of each component
  and the dependents, one for each dependency of each trigger (`Installed.mem_dependents`,
  `Installed.nodup`).
-/

import PuppetMaster.Scheduler.Carried
import PuppetMaster.Scheduler.Propagation
import PuppetMaster.Scheduler.TaskOrder

namespace PuppetMaster.Scheduler

open PuppetMaster.Core PuppetMaster.Lib

/-! ## What the declarations say -/

def taskTriggers (triggers : List TriggerSpec) : List TriggerSpec :=
  triggers.filter fun trigger => trigger.kind = .taskDependency

def taskState (trigger : TriggerSpec) : TriggerState := .ofSpec trigger trigger.taskDependencies.length

/-- The dependents of the trigger at place `k`, from dependency `index` on. -/
def triggerDependents (name : Name) (k : Nat) : List Name → Nat → List TaskDependent
  | [], _ => []
  | upstream :: rest, index => ⟨upstream, name, k, index⟩ :: triggerDependents name k rest (index + 1)

/-- The dependents of the task triggers from place `k` on. -/
def componentDependents (name : Name) : List TriggerSpec → Nat → List TaskDependent
  | [], _ => []
  | trigger :: rest, k => triggerDependents name k trigger.taskDependencies 0 ++ componentDependents name rest (k + 1)

theorem mem_triggerDependents {name : Name} {k : Nat} {dependencies : List Name} {index : Nat} {d : TaskDependent} :
    d ∈ triggerDependents name k dependencies index
      ↔ d.component = name ∧ d.triggerIndex = k ∧ index ≤ d.dependencyIndex
        ∧ dependencies[d.dependencyIndex - index]? = some d.upstream := by
  induction dependencies generalizing index with
  | nil => simp [triggerDependents]
  | cons upstream rest ih =>
    rw [triggerDependents, List.mem_cons, ih]
    constructor
    · intro h
      rcases h with rfl | ⟨hname, hk, hle, hget⟩
      · exact ⟨rfl, rfl, Nat.le_refl _, by simp⟩
      · refine ⟨hname, hk, by omega, ?_⟩
        rw [show d.dependencyIndex - index = d.dependencyIndex - (index + 1) + 1 by omega, List.getElem?_cons_succ]
        exact hget
    · intro h
      obtain ⟨hname, hk, hle, hget⟩ := h
      by_cases hfirst : d.dependencyIndex = index
      · rw [hfirst, Nat.sub_self, List.getElem?_cons_zero] at hget
        cases hget
        subst hname hk hfirst
        exact .inl rfl
      · rw [show d.dependencyIndex - index = d.dependencyIndex - (index + 1) + 1 by omega,
          List.getElem?_cons_succ] at hget
        exact .inr ⟨hname, hk, by omega, hget⟩

theorem mem_componentDependents {name : Name} {triggers : List TriggerSpec} {k : Nat} {d : TaskDependent} :
    d ∈ componentDependents name triggers k
      ↔ d.component = name ∧ k ≤ d.triggerIndex ∧ ∃ trigger, triggers[d.triggerIndex - k]? = some trigger
        ∧ trigger.taskDependencies[d.dependencyIndex]? = some d.upstream := by
  induction triggers generalizing k with
  | nil => simp [componentDependents]
  | cons trigger rest ih =>
    rw [componentDependents, List.mem_append, ih, mem_triggerDependents]
    constructor
    · intro h
      rcases h with ⟨hname, hk, -, hget⟩ | ⟨hname, hle, found, hfound, hget⟩
      · exact ⟨hname, by omega, trigger, by simp [hk], hget⟩
      · refine ⟨hname, by omega, found, ?_, hget⟩
        rw [show d.triggerIndex - k = d.triggerIndex - (k + 1) + 1 by omega, List.getElem?_cons_succ]
        exact hfound
    · intro h
      obtain ⟨hname, hle, found, hfound, hget⟩ := h
      by_cases hfirst : d.triggerIndex = k
      · rw [hfirst, Nat.sub_self, List.getElem?_cons_zero] at hfound
        cases hfound
        exact .inl ⟨hname, hfirst, Nat.zero_le _, hget⟩
      · rw [show d.triggerIndex - k = d.triggerIndex - (k + 1) + 1 by omega, List.getElem?_cons_succ] at hfound
        exact .inr ⟨hname, by omega, found, hfound, hget⟩

theorem nodup_triggerDependents (name : Name) (k : Nat) (dependencies : List Name) (index : Nat) :
    (triggerDependents name k dependencies index).Nodup := by
  induction dependencies generalizing index with
  | nil => exact List.nodup_nil
  | cons upstream rest ih =>
    rw [triggerDependents, List.nodup_cons]
    refine ⟨?_, ih _⟩
    intro hmem
    have := (mem_triggerDependents.mp hmem).2.2.1
    dsimp only at this
    omega

theorem nodup_componentDependents (name : Name) (triggers : List TriggerSpec) (k : Nat) :
    (componentDependents name triggers k).Nodup := by
  induction triggers generalizing k with
  | nil => exact List.nodup_nil
  | cons trigger rest ih =>
    rw [componentDependents, List.nodup_append]
    refine ⟨nodup_triggerDependents _ _ _ _, ih _, ?_⟩
    intro d hd d' hd' heq
    subst heq
    have hfirst := (mem_triggerDependents.mp hd).2.1
    have hrest := (mem_componentDependents.mp hd').2.1
    omega

/-! ## What success says -/

variable {registered : List Name} {name : Name}

theorem addDependencies_success {k : Nat} {dependencies seen : List Name} {index : Nat} {graph graph' : TaskGraph}
    (h : addDependencies registered name k dependencies index seen graph = .ok graph') :
    graph' = { graph with dependents := graph.dependents ++ triggerDependents name k dependencies index }
      ∧ dependencies.Nodup
      ∧ ∀ upstream ∈ dependencies, upstream ≠ name ∧ upstream ∉ seen ∧ upstream ∈ registered := by
  induction dependencies generalizing index seen graph with
  | nil =>
    cases h
    refine ⟨?_, List.nodup_nil, fun _ hu => absurd hu List.not_mem_nil⟩
    rw [triggerDependents, List.append_nil]
  | cons upstream rest ih =>
    unfold addDependencies at h
    split at h
    · cases h
    · rename_i hnew
      split at h
      · cases h
      · rename_i hregistered
        obtain ⟨hself, hunseen⟩ := not_or.mp hnew
        obtain ⟨heq, hnodup, hrest⟩ := ih h
        refine ⟨?_, ?_, ?_⟩
        · rw [heq, triggerDependents, List.append_assoc, List.singleton_append]
        · rw [List.nodup_cons]
          refine ⟨?_, hnodup⟩
          intro hin
          exact (hrest upstream hin).2.1 List.mem_cons_self
        · intro u hu
          rcases List.mem_cons.mp hu with rfl | hu
          · exact ⟨hself, hunseen, not_not.mp hregistered⟩
          · obtain ⟨hother, hfresh, hin⟩ := hrest u hu
            exact ⟨hother, fun hseen => hfresh (List.mem_cons_of_mem _ hseen), hin⟩

/-- The graph with the declarations of one more component, its triggers numbered from `k` on. -/
def TaskGraph.extend (graph : TaskGraph) (name : Name) (triggers : List TriggerSpec) (k : Nat) : TaskGraph where
  dependents := graph.dependents ++ componentDependents name triggers k
  states := graph.states ++ triggers.map fun trigger => (name, taskState trigger)

theorem addTriggers_success {triggers : List TriggerSpec} {graph graph' : TaskGraph}
    (h : addTriggers registered name triggers graph = .ok graph') :
    graph' = graph.extend name (taskTriggers triggers) (graph.statesOf name).length
      ∧ ∀ trigger ∈ triggers, trigger.kind = .taskDependency → Depends registered name trigger := by
  induction triggers generalizing graph with
  | nil =>
    have heq : graph = graph' := Except.ok.inj h
    subst heq
    refine ⟨?_, fun _ ht => absurd ht List.not_mem_nil⟩
    show graph = ⟨graph.dependents ++ [], graph.states ++ []⟩
    rw [List.append_nil, List.append_nil]
  | cons trigger rest ih =>
    unfold addTriggers at h
    cases hadd : addTrigger registered name trigger graph with
    | error status =>
      rw [hadd] at h
      cases h
    | ok next =>
      rw [hadd] at h
      obtain ⟨heq, hrest⟩ := ih h
      unfold addTrigger at hadd
      split at hadd
      · rename_i hkind
        cases hadd
        refine ⟨?_, ?_⟩
        · rw [heq, taskTriggers, taskTriggers, List.filter_cons_of_neg (by simpa using hkind)]
        · exact List.forall_mem_cons.mpr ⟨fun hk => absurd hk hkind, hrest⟩
      · rename_i hkind
        have hkind : trigger.kind = .taskDependency := not_not.mp hkind
        split at hadd
        · cases hadd
        · rename_i hsome
          obtain ⟨hnext, hnodup, hall⟩ := addDependencies_success hadd
          have hstates : (next.statesOf name).length = (graph.statesOf name).length + 1 := by
            rw [hnext]
            show (TaskGraph.statesOf { graph with states := graph.states ++ [(name, taskState trigger)] } name).length = _
            rw [TaskGraph.statesOf_push, if_pos rfl, List.length_append, List.length_singleton]
          refine ⟨?_, List.forall_mem_cons.mpr ⟨?_, hrest⟩⟩
          · rw [heq, hstates, hnext, taskTriggers, taskTriggers, List.filter_cons_of_pos (by simpa using hkind)]
            simp only [TaskGraph.extend, componentDependents, List.map_cons, List.append_assoc]
            rfl
          · intro _
            exact ⟨hsome, hnodup, fun u hu => (hall u hu).1, fun u hu => (hall u hu).2.2⟩

theorem TaskGraph.statesOf_append (dependents : List TaskDependent) (states states' : List (Name × TriggerState))
    (name : Name) :
    TaskGraph.statesOf ⟨dependents, states ++ states'⟩ name
      = TaskGraph.statesOf ⟨dependents, states⟩ name ++ TaskGraph.statesOf ⟨dependents, states'⟩ name := by
  unfold TaskGraph.statesOf
  rw [List.filter_append, List.map_append]

theorem TaskGraph.statesOf_other {dependents : List TaskDependent} {triggers : List TriggerSpec} {other : Name}
    (h : other ≠ name) :
    TaskGraph.statesOf ⟨dependents, triggers.map fun trigger => (name, taskState trigger)⟩ other = [] := by
  unfold TaskGraph.statesOf
  rw [List.map_eq_nil_iff, List.filter_eq_nil_iff]
  intro entry hentry
  obtain ⟨trigger, -, rfl⟩ := List.mem_map.mp hentry
  simpa using fun heq => h heq.symm

theorem TaskGraph.statesOf_self {dependents : List TaskDependent} {triggers : List TriggerSpec} :
    TaskGraph.statesOf ⟨dependents, triggers.map fun trigger => (name, taskState trigger)⟩ name
      = triggers.map taskState := by
  unfold TaskGraph.statesOf
  rw [List.filter_eq_self.mpr, List.map_map]
  · rfl
  · intro entry hentry
    obtain ⟨trigger, -, rfl⟩ := List.mem_map.mp hentry
    simp

/-- The states and the dependents are those of the declarations. -/
structure Installed (registered : List Name) (components : List (Name × List TriggerSpec)) (graph : TaskGraph) : Prop where
  dependents : graph.dependents = components.flatMap fun c => componentDependents c.1 (taskTriggers c.2) 0
  states : ∀ c ∈ components, graph.statesOf c.1 = (taskTriggers c.2).map taskState
  depends : ∀ c ∈ components, ∀ trigger ∈ c.2, trigger.kind = .taskDependency → Depends registered c.1 trigger

theorem addComponents_success {components : List (Name × List TriggerSpec)} {graph graph' : TaskGraph}
    (h : addComponents registered components graph = .ok graph') (hnames : (components.map Prod.fst).Nodup)
    (hfresh : ∀ c ∈ components, graph.statesOf c.1 = []) :
    graph'.dependents = graph.dependents ++ components.flatMap (fun c => componentDependents c.1 (taskTriggers c.2) 0)
      ∧ (∀ c ∈ components, graph'.statesOf c.1 = (taskTriggers c.2).map taskState)
      ∧ (∀ other, other ∉ components.map Prod.fst → graph'.statesOf other = graph.statesOf other)
      ∧ ∀ c ∈ components, ∀ trigger ∈ c.2, trigger.kind = .taskDependency → Depends registered c.1 trigger := by
  induction components generalizing graph with
  | nil =>
    cases h
    exact ⟨by simp, fun _ hc => absurd hc List.not_mem_nil, fun _ _ => rfl, fun _ hc => absurd hc List.not_mem_nil⟩
  | cons c rest ih =>
    unfold addComponents at h
    cases hadd : addTriggers registered c.1 c.2 graph with
    | error status =>
      simp only [hadd] at h
      cases h
    | ok next =>
      simp only [hadd] at h
      obtain ⟨hnext, hdepends⟩ := addTriggers_success hadd
      rw [hfresh c List.mem_cons_self, List.length_nil] at hnext
      obtain ⟨hnot, hnames⟩ := List.nodup_cons.mp hnames
      have hstates (other : Name) : next.statesOf other = graph.statesOf other
          ++ TaskGraph.statesOf ⟨next.dependents, (taskTriggers c.2).map fun trigger => (c.1, taskState trigger)⟩ other := by
        rw [hnext]
        exact TaskGraph.statesOf_append _ _ _ _
      have hothers (other : Name) (hne : other ≠ c.1) : next.statesOf other = graph.statesOf other := by
        rw [hstates, TaskGraph.statesOf_other hne, List.append_nil]
      have hin (d : Name × List TriggerSpec) (hd : d ∈ rest) : d.1 ≠ c.1 := by
        intro heq
        exact hnot (heq ▸ List.mem_map_of_mem hd)
      obtain ⟨hdependents, hown, hothers', hrest⟩ := ih h hnames fun d hd => by
        rw [hothers d.1 (hin d hd)]
        exact hfresh d (List.mem_cons_of_mem _ hd)
      refine ⟨?_, ?_, ?_, List.forall_mem_cons.mpr ⟨hdepends, hrest⟩⟩
      · rw [hdependents, hnext, List.flatMap_cons, ← List.append_assoc]
        rfl
      · refine List.forall_mem_cons.mpr ⟨?_, hown⟩
        rw [hothers' c.1 hnot, hstates, TaskGraph.statesOf_self, hfresh c List.mem_cons_self, List.nil_append]
      · intro other hother
        rw [List.map_cons, List.mem_cons, not_or] at hother
        rw [hothers' other hother.2, hothers other hother.1]

/-! ## The installation -/

variable {components : List (Name × List TriggerSpec)} {graph : TaskGraph}

theorem installTaskTriggers_success (hnames : (components.map Prod.fst).Nodup)
    (h : installTaskTriggers components = .ok graph) :
    Installed (components.map Prod.fst) components graph ∧ Acyclic (edgesOf components) := by
  unfold installTaskTriggers at h
  dsimp only at h
  cases hadd : addComponents (components.map Prod.fst) components .empty with
  | error status =>
    rw [hadd] at h
    cases h
  | ok built =>
    rw [hadd] at h
    simp only [Except.bind] at h
    split at h
    · cases h
    · rename_i hvisited
      have heq : built = graph := Except.ok.inj h
      subst heq
      obtain ⟨hdependents, hstates, -, hdepends⟩ := addComponents_success hadd hnames fun _ _ => rfl
      refine ⟨⟨hdependents, hstates, hdepends⟩, ?_⟩
      obtain ⟨same, hsame, hedges⟩ := addComponents_ok .empty hdepends
      have heq : same = built := Except.ok.inj (hsame.symm.trans hadd)
      subst heq
      have hgraph : same.dependents.map TaskDependent.edge = edgesOf components := hedges
      rw [sortTasks_eq_sort, indegreeOf_eq_degreesOf, hgraph] at hvisited
      have hlen : (components.map Prod.fst).length ≤ components.length + same.dependents.length := by
        rw [List.length_map]
        omega
      have hsort := sort_eq_length_iff hnames (edgesOf_registered hdepends) hlen
      rw [List.length_map] at hsort
      exact exists_rank_iff.mp (hsort.mp (not_not.mp hvisited))

theorem installTaskTriggers_iff (hnames : (components.map Prod.fst).Nodup) :
    (∃ graph, installTaskTriggers components = .ok graph)
      ↔ (∀ c ∈ components, ∀ trigger ∈ c.2, trigger.kind = .taskDependency →
          Depends (components.map Prod.fst) c.1 trigger)
        ∧ Acyclic (edgesOf components) := by
  constructor
  · intro h
    obtain ⟨graph, hgraph⟩ := h
    obtain ⟨hinstalled, hacyclic⟩ := installTaskTriggers_success hnames hgraph
    exact ⟨hinstalled.depends, hacyclic⟩
  · intro h
    exact installTaskTriggers_ok hnames h.1 (exists_rank_iff.mpr h.2)

theorem Installed.mem_dependents {registered : List Name} (h : Installed registered components graph)
    {d : TaskDependent} :
    d ∈ graph.dependents ↔ ∃ triggers trigger, (d.component, triggers) ∈ components
      ∧ (taskTriggers triggers)[d.triggerIndex]? = some trigger
      ∧ trigger.taskDependencies[d.dependencyIndex]? = some d.upstream := by
  rw [h.dependents, List.mem_flatMap]
  constructor
  · intro hmem
    obtain ⟨c, hc, hd⟩ := hmem
    obtain ⟨hname, -, trigger, htrigger, hdependency⟩ := mem_componentDependents.mp hd
    exact ⟨c.2, trigger, hname ▸ hc, htrigger, hdependency⟩
  · intro hmem
    obtain ⟨triggers, trigger, hc, htrigger, hdependency⟩ := hmem
    exact ⟨_, hc, mem_componentDependents.mpr ⟨rfl, Nat.zero_le _, trigger, htrigger, hdependency⟩⟩

theorem Installed.nodup {registered : List Name} (h : Installed registered components graph)
    (hnames : (components.map Prod.fst).Nodup) : graph.dependents.Nodup := by
  rw [h.dependents, List.nodup_flatMap]
  refine ⟨fun c _ => nodup_componentDependents _ _ _, ?_⟩
  refine (List.pairwise_map.mp hnames).imp ?_
  intro c c' hne d hd hd'
  exact hne ((mem_componentDependents.mp hd).1.symm.trans (mem_componentDependents.mp hd').1)

/-! ## The members -/

/-- `InstallTaskTriggers`: its status, and the members it leaves. -/
def installTasks (s : State) : Status × State :=
  match installTaskTriggers (specs s.components) with
  | .error status => (status, s)
  | .ok graph =>
    (.ok, { s with
      components := s.components.map fun c => { c with taskTriggers := graph.statesOf c.name }
      taskDependents := graph.dependents })

theorem addDependencies_refusal {k : Nat} {dependencies seen : List Name} {index : Nat} {graph : TaskGraph}
    {status : Status} (h : addDependencies registered name k dependencies index seen graph = .error status) :
    status.code = .invalidArgument := by
  induction dependencies generalizing index seen graph with
  | nil => cases h
  | cons upstream rest ih =>
    unfold addDependencies at h
    split at h
    · cases h
      rfl
    · split at h
      · cases h
        rfl
      · exact ih h

theorem addTriggers_refusal {triggers : List TriggerSpec} {graph : TaskGraph} {status : Status}
    (h : addTriggers registered name triggers graph = .error status) : status.code = .invalidArgument := by
  induction triggers generalizing graph with
  | nil => cases h
  | cons trigger rest ih =>
    unfold addTriggers at h
    cases hadd : addTrigger registered name trigger graph with
    | ok next =>
      rw [hadd] at h
      exact ih h
    | error refused =>
      rw [hadd] at h
      cases h
      unfold addTrigger at hadd
      split at hadd
      · cases hadd
      · split at hadd
        · cases hadd
          rfl
        · exact addDependencies_refusal hadd

theorem addComponents_refusal {graph : TaskGraph} {status : Status}
    (h : addComponents registered components graph = .error status) : status.code = .invalidArgument := by
  induction components generalizing graph with
  | nil => cases h
  | cons c rest ih =>
    unfold addComponents at h
    cases hadd : addTriggers registered c.1 c.2 graph with
    | ok next =>
      simp only [hadd] at h
      exact ih h
    | error refused =>
      simp only [hadd] at h
      cases h
      exact addTriggers_refusal hadd

/-- Every refusal is an `InvalidArgument`. -/
theorem installTaskTriggers_refusal {status : Status} (h : installTaskTriggers components = .error status) :
    status.code = .invalidArgument := by
  unfold installTaskTriggers at h
  dsimp only at h
  cases hadd : addComponents (components.map Prod.fst) components .empty with
  | error refused =>
    rw [hadd] at h
    cases h
    exact addComponents_refusal hadd
  | ok built =>
    rw [hadd] at h
    simp only [Except.bind] at h
    split at h
    · cases h
      rfl
    · cases h

variable {s : State}

theorem installTasks_ok_iff : (installTasks s).1 = .ok ↔ ∃ graph, installTaskTriggers (specs s.components) = .ok graph := by
  unfold installTasks
  cases h : installTaskTriggers (specs s.components) with
  | ok graph => exact ⟨fun _ => ⟨graph, rfl⟩, fun _ => rfl⟩
  | error status =>
    constructor
    · intro hok
      have hcode := installTaskTriggers_refusal h
      rw [show status = .ok from hok] at hcode
      cases hcode
    · intro hex
      obtain ⟨graph, hgraph⟩ := hex
      cases hgraph

theorem installTasks_refused (h : (installTasks s).1 ≠ .ok) : (installTasks s).2 = s := by
  unfold installTasks at h ⊢
  cases hinstall : installTaskTriggers (specs s.components) with
  | error status => rfl
  | ok graph =>
    rw [hinstall] at h
    exact absurd rfl h

theorem specs_fst (components : List ScheduledComponent) : (specs components).map Prod.fst = components.map (·.name) := by
  rw [specs, List.map_map]
  rfl

/-- What the members hold once the triggers are installed. -/
theorem installTasks_installed (hnames : (s.components.map (·.name)).Nodup) (h : (installTasks s).1 = .ok) :
    (∀ d, d ∈ (installTasks s).2.taskDependents ↔ ∃ c ∈ s.components, ∃ trigger, c.name = d.component
        ∧ (taskTriggers c.triggers)[d.triggerIndex]? = some trigger
        ∧ trigger.taskDependencies[d.dependencyIndex]? = some d.upstream)
      ∧ (installTasks s).2.taskDependents.Nodup
      ∧ ∀ c ∈ (installTasks s).2.components, c.taskTriggers = (taskTriggers c.triggers).map taskState := by
  obtain ⟨graph, hgraph⟩ := installTasks_ok_iff.mp h
  rw [← specs_fst] at hnames
  obtain ⟨hinstalled, -⟩ := installTaskTriggers_success hnames hgraph
  simp only [installTasks, hgraph]
  refine ⟨?_, hinstalled.nodup hnames, ?_⟩
  · intro d
    rw [hinstalled.mem_dependents]
    constructor
    · intro hd
      obtain ⟨triggers, trigger, hmem, htrigger, hdependency⟩ := hd
      obtain ⟨c, hc, heq⟩ := List.mem_map.mp hmem
      obtain ⟨hname, rfl⟩ := Prod.mk.inj (show (c.name, c.triggers) = _ from heq)
      exact ⟨c, hc, trigger, hname, htrigger, hdependency⟩
    · intro hd
      obtain ⟨c, hc, trigger, hname, htrigger, hdependency⟩ := hd
      exact ⟨c.triggers, trigger, hname ▸ List.mem_map_of_mem hc, htrigger, hdependency⟩
  · intro c hc
    obtain ⟨declared, hdeclared, rfl⟩ := List.mem_map.mp hc
    exact hinstalled.states declared.spec (List.mem_map_of_mem hdeclared)

end PuppetMaster.Scheduler
