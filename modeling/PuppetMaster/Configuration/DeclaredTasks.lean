/-
  PuppetMaster.Configuration.DeclaredTasks — the task dependencies that a project declares.

  `ValidateTaskDependencies` collects the edges trigger by trigger, each checked against the
  names of the components, and sorts the components along them. It accepts what `Upstreams`
  says of every trigger and `Acyclic` of the edges (`validateTaskDependencies_iff`).
-/

import PuppetMaster.Configuration.Project
import PuppetMaster.Lib.Lists

namespace PuppetMaster.Configuration

open PuppetMaster.Core PuppetMaster.Lib PuppetMaster.Scheduler

/-! ## Edges -/

def edgesOfDeclaration (name : Name) (trigger : TriggerConfig) : List (Name × Name) :=
  if trigger.kind = .taskDependency then trigger.taskDependencies.map fun upstream => (upstream, name) else []

def componentEdges (component : ComponentConfig) : List (Name × Name) :=
  component.triggers.flatMap (edgesOfDeclaration component.name)

def declaredEdges (components : List ComponentConfig) : List (Name × Name) := components.flatMap componentEdges

/-! ## The check -/

theorem componentNames_perm {components : List ComponentConfig} (h : (components.map (·.name)).Nodup) :
    (componentNames components).Perm (components.map (·.name)) := by
  let es : List (Name × Unit) := components.map fun component => (component.name, ())
  have hkeys : es.map Prod.fst = components.map (·.name) := by
    rw [List.map_map]
    rfl
  have hfold : components.foldl (fun names component => names.insert component.name ()) SortedMap.empty =
      es.foldl (fun m e => m.insert e.1 e.2) SortedMap.empty := by
    rw [List.foldl_map]
  have hperm := SortedMap.foldl_insert_perm .empty (hkeys ▸ h) fun _ _ _ h => absurd h List.not_mem_nil
  rw [componentNames, hfold, ← hkeys]
  simpa [SortedMap.empty] using hperm.map Prod.fst

/-- The dependencies of one trigger, checked against the names of the components. -/
structure Upstreams (names : List Name) (name : Name) (dependencies : List Name) : Prop where
  nodup : dependencies.Nodup
  other : ∀ upstream ∈ dependencies, upstream ≠ name
  known : ∀ upstream ∈ dependencies, upstream ∈ names

theorem dependencyEdges_ok {names : List Name} {component : ComponentConfig} {index : Nat}
    {dependencies seen : List Name} {edges : List (Name × Name)}
    (h : dependencyEdges names component index dependencies seen = .ok edges) :
    Upstreams names component.name dependencies ∧ (∀ upstream ∈ dependencies, upstream ∉ seen) ∧
      edges = dependencies.map fun upstream => (upstream, component.name) := by
  induction dependencies generalizing seen edges with
  | nil =>
    cases h
    have hnone : ∀ {p : Name → Prop}, ∀ upstream ∈ ([] : List Name), p upstream := fun _ h => absurd h List.not_mem_nil
    exact ⟨⟨List.nodup_nil, hnone, hnone⟩, hnone, rfl⟩
  | cons upstream rest ih =>
    rw [dependencyEdges] at h
    simp only [then_eq_ok, refuse_eq_ok, not_not] at h
    obtain ⟨hself, hnew, hknown, h⟩ := h
    obtain ⟨edges', hrest, hedges⟩ := bind_eq_ok.mp h
    cases hedges
    obtain ⟨hups, hfresh, rfl⟩ := ih hrest
    refine ⟨⟨List.nodup_cons.mpr ⟨fun hin => hfresh upstream hin List.mem_cons_self, hups.nodup⟩, ?_, ?_⟩, ?_, rfl⟩
    · exact List.forall_mem_cons.mpr ⟨hself, hups.other⟩
    · exact List.forall_mem_cons.mpr ⟨hknown, hups.known⟩
    · exact List.forall_mem_cons.mpr ⟨hnew, fun u hu hin => hfresh u hu (List.mem_cons_of_mem _ hin)⟩

variable {names : List Name} {component : ComponentConfig} {components : List ComponentConfig}

theorem dependencyEdges_of_upstreams {index : Nat} {dependencies seen : List Name}
    (h : Upstreams names component.name dependencies) (hfresh : ∀ upstream ∈ dependencies, upstream ∉ seen) :
    dependencyEdges names component index dependencies seen
      = .ok (dependencies.map fun upstream => (upstream, component.name)) := by
  induction dependencies generalizing seen with
  | nil => rfl
  | cons upstream rest ih =>
    obtain ⟨hnot, hnodup⟩ := List.nodup_cons.mp h.nodup
    have hrest : Upstreams names component.name rest :=
      ⟨hnodup, fun u hu => h.other u (List.mem_cons_of_mem _ hu), fun u hu => h.known u (List.mem_cons_of_mem _ hu)⟩
    have hunseen : ∀ u ∈ rest, u ∉ upstream :: seen := by
      intro u hu hin
      rcases List.mem_cons.mp hin with rfl | hin
      · exact hnot hu
      · exact hfresh u (List.mem_cons_of_mem _ hu) hin
    rw [dependencyEdges]
    simp only [then_eq_ok, refuse_eq_ok, not_not]
    refine ⟨h.other upstream List.mem_cons_self, hfresh upstream List.mem_cons_self, h.known upstream List.mem_cons_self, ?_⟩
    exact bind_eq_ok.mpr ⟨_, ih hrest hunseen, rfl⟩

theorem triggerEdges_eq_ok {triggers : List TriggerConfig} {index : Nat} {edges : List (Name × Name)} :
    triggerEdges names component triggers index = .ok edges
      ↔ (∀ trigger ∈ triggers, trigger.kind = .taskDependency → Upstreams names component.name trigger.taskDependencies)
        ∧ edges = triggers.flatMap (edgesOfDeclaration component.name) := by
  induction triggers generalizing index edges with
  | nil =>
    constructor
    · intro h
      cases h
      exact ⟨fun _ ht => absurd ht List.not_mem_nil, rfl⟩
    · intro h
      rw [h.2]
      rfl
  | cons trigger rest ih =>
    have hfirst (own : List (Name × Name)) :
        (if trigger.kind = .taskDependency then dependencyEdges names component index trigger.taskDependencies []
          else .ok []) = .ok own
        ↔ (trigger.kind = .taskDependency → Upstreams names component.name trigger.taskDependencies)
          ∧ own = edgesOfDeclaration component.name trigger := by
      unfold edgesOfDeclaration
      by_cases hkind : trigger.kind = .taskDependency
      · rw [if_pos hkind, if_pos hkind]
        constructor
        · intro h
          obtain ⟨hups, -, heq⟩ := dependencyEdges_ok h
          exact ⟨fun _ => hups, heq⟩
        · intro h
          rw [h.2]
          exact dependencyEdges_of_upstreams (h.1 hkind) fun _ _ => List.not_mem_nil
      · rw [if_neg hkind, if_neg hkind]
        constructor
        · intro h
          cases h
          exact ⟨fun hk => absurd hk hkind, rfl⟩
        · intro h
          rw [h.2]
    rw [triggerEdges, bind_eq_ok, List.forall_mem_cons, List.flatMap_cons]
    simp only [bind_eq_ok, hfirst, ih]
    constructor
    · intro h
      obtain ⟨own, ⟨hups, rfl⟩, others, ⟨hrest, rfl⟩, hedges⟩ := h
      cases hedges
      exact ⟨⟨hups, hrest⟩, rfl⟩
    · intro h
      exact ⟨_, ⟨h.1.1, rfl⟩, _, ⟨h.1.2, rfl⟩, by rw [h.2]; rfl⟩

/-- Every trigger's dependencies are on other components of the project, each named once. -/
def AllUpstreams (components : List ComponentConfig) : Prop :=
  ∀ component ∈ components, ∀ trigger ∈ component.triggers, trigger.kind = .taskDependency →
    Upstreams (components.map (·.name)) component.name trigger.taskDependencies

theorem mem_declaredEdges {edge : Name × Name} :
    edge ∈ declaredEdges components ↔ ∃ component ∈ components, ∃ trigger ∈ component.triggers,
      trigger.kind = .taskDependency ∧ edge.1 ∈ trigger.taskDependencies ∧ edge.2 = component.name := by
  unfold declaredEdges componentEdges edgesOfDeclaration
  simp only [List.mem_flatMap]
  constructor
  · intro h
    obtain ⟨component, hc, trigger, ht, hedge⟩ := h
    by_cases hkind : trigger.kind = .taskDependency
    · rw [if_pos hkind] at hedge
      obtain ⟨upstream, hu, rfl⟩ := List.mem_map.mp hedge
      exact ⟨component, hc, trigger, ht, hkind, hu, rfl⟩
    · rw [if_neg hkind] at hedge
      cases hedge
  · intro h
    obtain ⟨component, hc, trigger, ht, hkind, hu, hname⟩ := h
    refine ⟨component, hc, trigger, ht, ?_⟩
    rw [if_pos hkind, ← hname]
    exact List.mem_map_of_mem hu

theorem Upstreams.congr {names names' : List Name} (hnames : ∀ name, name ∈ names ↔ name ∈ names') {name : Name}
    {dependencies : List Name} (h : Upstreams names name dependencies) : Upstreams names' name dependencies :=
  ⟨h.nodup, h.other, fun u hu => (hnames u).mp (h.known u hu)⟩

theorem validateTaskDependencies_iff (hnames : (components.map (·.name)).Nodup) :
    validateTaskDependencies components = .ok () ↔ AllUpstreams components ∧ Acyclic (declaredEdges components) := by
  have hperm := componentNames_perm hnames
  have hlen : (componentNames components).length = components.length := by rw [hperm.length_eq, List.length_map]
  have hall (edges : List (List (Name × Name))) :
      components.mapM (fun component => triggerEdges (componentNames components) component component.triggers 0) = .ok edges
        ↔ AllUpstreams components ∧ edges = components.map componentEdges := by
    rw [mapM_eq_ok]
    simp only [triggerEdges_eq_ok]
    constructor
    · intro h
      have hups : AllUpstreams components := by
        intro component hc trigger ht hkind
        obtain ⟨own, -, hown, -⟩ := forall₂_mem_left h hc
        exact (hown trigger ht hkind).congr fun name => hperm.mem_iff
      have hedges : List.Forall₂ (· = ·) (components.map componentEdges) edges := by
        rw [List.forall₂_map_left_iff]
        exact h.imp fun _ _ hown => hown.2.symm
      exact ⟨hups, (List.forall₂_eq_eq_eq ▸ hedges : components.map componentEdges = edges).symm⟩
    · intro h
      obtain ⟨hups, rfl⟩ := h
      rw [List.forall₂_map_right_iff, List.forall₂_same]
      intro component hc
      refine ⟨?_, rfl⟩
      intro trigger ht hkind
      exact (hups component hc trigger ht hkind).congr fun name => hperm.mem_iff.symm
  have hflatten : (components.map componentEdges).flatten = declaredEdges components := rfl
  have hsort (hups : AllUpstreams components) :
      Lib.sort (declaredEdges components) components.length
          (degreesOf (componentNames components) (declaredEdges components))
          (sources (degreesOf (componentNames components) (declaredEdges components))) 0 = components.length
        ↔ Acyclic (declaredEdges components) := by
    have hends : ∀ edge ∈ declaredEdges components,
        edge.1 ∈ componentNames components ∧ edge.2 ∈ componentNames components := by
      intro edge hedge
      obtain ⟨component, hc, trigger, ht, hkind, hu, hname⟩ := mem_declaredEdges.mp hedge
      rw [hperm.mem_iff, hperm.mem_iff, hname]
      exact ⟨(hups component hc trigger ht hkind).known _ hu, List.mem_map_of_mem hc⟩
    rw [← exists_rank_iff, ← sort_eq_length_iff (hperm.nodup_iff.mpr hnames) hends (Nat.le_of_eq hlen), hlen]
  unfold validateTaskDependencies
  rw [bind_eq_ok]
  simp only [hall, refuse_eq_ok, not_not]
  constructor
  · intro h
    obtain ⟨edges, ⟨hups, rfl⟩, hvisited⟩ := h
    rw [hflatten] at hvisited
    exact ⟨hups, (hsort hups).mp hvisited⟩
  · intro h
    refine ⟨_, ⟨h.1, rfl⟩, ?_⟩
    rw [hflatten]
    exact (hsort h.1).mpr h.2

end PuppetMaster.Configuration
