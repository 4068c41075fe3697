/-
  PuppetMaster.Configuration.Deployment — `ApplyDeployment` and `LoadJsonConfig`
  (json_loader.cpp), on decoded files.

  A deployment file sets the transport and the transport parameters of topics and services,
  by wire name, over defaults for all of them. Entries for names that a project does not
  declare are passed over, errors in their values included: a `Placement` has for each
  value what reading it gives. A project file has no key for transport parameters
  (`ProjectFile`).

  So in a loaded project the deployment alone decides the parameters of a wire name
  (`load_topic_parameters`).
-/

import PuppetMaster.Configuration.Project
import PuppetMaster.Lib.Lists

namespace PuppetMaster.Configuration

open PuppetMaster.Core PuppetMaster.Lib PuppetMaster.Scheduler

/-! ## Files -/

/-- A deployment entry without its name; a value that is not there leaves the project's. -/
structure Placement where
  transport : Option (Result TransportKind) := none
  parameters : Result ParameterMap := .ok .empty

structure Deployment where
  defaults : Placement := {}
  topics : List (Name × Placement) := []
  services : List (Name × Placement) := []

/-- What `Decode` makes of a project file. -/
structure ProjectFile where
  project : ProjectConfig
  topics : ∀ topic ∈ project.topics, topic.transportParameters = .empty
  services : ∀ service ∈ project.services, service.transportParameters = .empty

/-! ## Loading -/

def setParameters (set : ParameterMap) (parameters : ParameterMap) : ParameterMap :=
  set.entries.foldl (fun parameters entry => parameters.insert entry.1 entry.2) parameters

def TopicConfig.place (placement : Placement) (topic : TopicConfig) : Result TopicConfig := do
  let transport ← placement.transport.getD (.ok topic.transport)
  let set ← placement.parameters
  return { topic with transport, transportParameters := setParameters set topic.transportParameters }

def ServiceConfig.place (placement : Placement) (service : ServiceConfig) : Result ServiceConfig := do
  let transport ← placement.transport.getD (.ok service.transport)
  let set ← placement.parameters
  return { service with transport, transportParameters := setParameters set service.transportParameters }

/-- One entry over all declarations: those of its name are placed. -/
def placeNamed {α : Type} (nameOf : α → Name) (place : Placement → α → Result α) (declared : List α)
    (entry : Name × Placement) : Result (List α) :=
  declared.mapM fun item => if nameOf item = entry.1 then place entry.2 item else .ok item

def applyDeployment (deployment : Deployment) (project : ProjectConfig) : Result ProjectConfig := do
  let _ ← deployment.defaults.parameters
  let topics ← project.topics.mapM (TopicConfig.place deployment.defaults)
  let services ← project.services.mapM (ServiceConfig.place deployment.defaults)
  let topics ← deployment.topics.foldlM (placeNamed TopicConfig.name TopicConfig.place) topics
  let services ← deployment.services.foldlM (placeNamed ServiceConfig.name ServiceConfig.place) services
  return { project with topics, services }

def load (deployment : Deployment) (file : ProjectFile) : Result ProjectConfig := do
  let project ← applyDeployment deployment file.project
  project.validate
  return project

theorem load_eq_ok {deployment : Deployment} {file : ProjectFile} {project : ProjectConfig} :
    load deployment file = .ok project ↔
      applyDeployment deployment file.project = .ok project ∧ project.validate = .ok () := by
  unfold load
  rw [bind_eq_ok]
  constructor
  · intro h
    obtain ⟨placed, hplaced, h⟩ := h
    obtain ⟨hvalid, h⟩ := then_eq_ok.mp h
    cases h
    exact ⟨hplaced, hvalid⟩
  · intro h
    obtain ⟨hplaced, hvalid⟩ := h
    exact ⟨project, hplaced, then_eq_ok.mpr ⟨hvalid, rfl⟩⟩

/-! ## What a name gets -/

/-- The parameters that an entry adds; an entry that cannot be read is not used by a loaded project. -/
def Placement.added (placement : Placement) : ParameterMap := placement.parameters.toOption.getD .empty

/-- The defaults, and over them the entries of the name in their order. -/
def parametersOf (defaults : Placement) (entries : List (Name × Placement)) (name : Name) : ParameterMap :=
  (entries.filter fun entry => entry.1 = name).foldl (fun parameters entry => setParameters entry.2.added parameters)
    (setParameters defaults.added .empty)

theorem setParameters_empty (set : ParameterMap) : setParameters set .empty = set := SortedMap.foldl_insert_entries set

section Declared

variable {α : Type} {nameOf : α → Name} {parametersIn : α → ParameterMap} {place : Placement → α → Result α}

/-- Placing keeps the name, and sets the parameters of the placement over those that are there. -/
def Places (nameOf : α → Name) (parametersIn : α → ParameterMap) (place : Placement → α → Result α) : Prop :=
  ∀ {placement item item'}, place placement item = .ok item' →
    nameOf item' = nameOf item ∧ parametersIn item' = setParameters placement.added (parametersIn item)

theorem placeNamed_ok (hplaces : Places nameOf parametersIn place) {declared declared' : List α}
    {entry : Name × Placement} (h : placeNamed nameOf place declared entry = .ok declared') {item' : α}
    (hmem : item' ∈ declared') :
    ∃ item ∈ declared, nameOf item' = nameOf item ∧ parametersIn item' =
      if nameOf item = entry.1 then setParameters entry.2.added (parametersIn item) else parametersIn item := by
  obtain ⟨item, hitem, hplaced⟩ := forall₂_mem_right (mapM_eq_ok.mp h) hmem
  refine ⟨item, hitem, ?_⟩
  split at hplaced
  · next hname =>
    rw [if_pos hname]
    exact hplaces hplaced
  · next hname =>
    cases hplaced
    rw [if_neg hname]
    exact ⟨rfl, rfl⟩

theorem foldlM_placeNamed_ok (hplaces : Places nameOf parametersIn place) {entries : List (Name × Placement)}
    {declared declared' : List α} (h : entries.foldlM (placeNamed nameOf place) declared = .ok declared') {item' : α}
    (hmem : item' ∈ declared') :
    ∃ item ∈ declared, nameOf item' = nameOf item ∧ parametersIn item' =
      (entries.filter fun entry => entry.1 = nameOf item).foldl
        (fun parameters entry => setParameters entry.2.added parameters) (parametersIn item) := by
  induction entries generalizing declared with
  | nil =>
    cases h
    exact ⟨item', hmem, rfl, rfl⟩
  | cons entry entries ih =>
    rw [List.foldlM_cons] at h
    obtain ⟨placed, hplaced, h⟩ := bind_eq_ok.mp h
    obtain ⟨item, hitem, hname, hparameters⟩ := ih h
    obtain ⟨first, hfirst, hsame, hset⟩ := placeNamed_ok hplaces hplaced hitem
    refine ⟨first, hfirst, hname.trans hsame, ?_⟩
    rw [hparameters, hset, hsame]
    by_cases hentry : nameOf first = entry.1
    · rw [if_pos hentry, List.filter_cons_of_pos (by simpa using hentry.symm), List.foldl_cons]
    · rw [if_neg hentry, List.filter_cons_of_neg (by simpa using fun heq => hentry heq.symm)]

/-- A name's parameters are the deployment's, if the file's own declarations have none. -/
theorem placed_parameters (hplaces : Places nameOf parametersIn place) {defaults : Placement}
    {entries : List (Name × Placement)} {declared placed final : List α}
    (hplain : ∀ item ∈ declared, parametersIn item = .empty)
    (hdefaults : declared.mapM (place defaults) = .ok placed)
    (hentries : entries.foldlM (placeNamed nameOf place) placed = .ok final) :
    ∀ item ∈ final, parametersIn item = parametersOf defaults entries (nameOf item) := by
  intro item hitem
  obtain ⟨first, hfirst, hname, hparameters⟩ := foldlM_placeNamed_ok hplaces hentries hitem
  obtain ⟨own, hown, hplaced⟩ := forall₂_mem_right (mapM_eq_ok.mp hdefaults) hfirst
  obtain ⟨-, hset⟩ := hplaces hplaced
  rw [hparameters, hset, hplain own hown, hname]
  rfl

end Declared

theorem topics_places : Places TopicConfig.name TopicConfig.transportParameters TopicConfig.place := by
  intro placement topic topic' h
  obtain ⟨transport, -, h⟩ := bind_eq_ok.mp h
  obtain ⟨set, hset, h⟩ := bind_eq_ok.mp h
  cases h
  rw [Placement.added, hset]
  exact ⟨rfl, rfl⟩

theorem load_topic_parameters {deployment : Deployment} {file : ProjectFile} {project : ProjectConfig}
    (h : load deployment file = .ok project) :
    ∀ topic ∈ project.topics,
      topic.transportParameters = parametersOf deployment.defaults deployment.topics topic.name := by
  obtain ⟨hplaced, -⟩ := load_eq_ok.mp h
  unfold applyDeployment at hplaced
  obtain ⟨_, -, hplaced⟩ := bind_eq_ok.mp hplaced
  obtain ⟨topics, htopics, hplaced⟩ := bind_eq_ok.mp hplaced
  obtain ⟨services, -, hplaced⟩ := bind_eq_ok.mp hplaced
  obtain ⟨topics', htopics', hplaced⟩ := bind_eq_ok.mp hplaced
  obtain ⟨services', -, hplaced⟩ := bind_eq_ok.mp hplaced
  cases hplaced
  exact placed_parameters topics_places file.topics htopics htopics'

end PuppetMaster.Configuration
