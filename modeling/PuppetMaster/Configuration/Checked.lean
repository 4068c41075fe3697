/-
  PuppetMaster.Configuration.Checked — what a project that passes its checks has.

  `TriggerBuilt` and `ComponentBuilt` say what a trigger's and a component's spec have in
  common with their declarations (`toTriggerSpec_built`, `toComponentSpec_built`): ids
  become wire names, a data trigger's topics are distinct and have a single reader, no two
  data triggers share a topic. A service id and its wire name determine each other
  (`isService_injective`): `validateServices` refuses two services whose topics collide.

  `Checked` collects what `ProjectConfig.validate` establishes (`checked_of_validate`).
-/

import PuppetMaster.Configuration.DeclaredTasks
import PuppetMaster.Scheduler.TaskOrder

namespace PuppetMaster.Configuration

open PuppetMaster.Core PuppetMaster.Lib PuppetMaster.Scheduler PuppetMaster.Service
open PuppetMaster.Runtime (ComponentSpec ComponentRegistry)

variable {project : ProjectConfig}

/-- `name` is the wire name of the topic with that id. -/
def IsTopic (project : ProjectConfig) (id : Bytes) (name : Name) : Prop :=
  ∃ topic, project.findTopic id = .ok topic ∧ topic.name = name

def IsService (project : ProjectConfig) (id : Bytes) (name : Name) : Prop :=
  ∃ service, project.findService id = .ok service ∧ service.name = name

theorem IsTopic.unique {id : Bytes} {name name' : Name} (h : IsTopic project id name) (h' : IsTopic project id name') :
    name = name' := by
  obtain ⟨topic, hfound, rfl⟩ := h
  obtain ⟨topic', hfound', rfl⟩ := h'
  rw [hfound] at hfound'
  cases hfound'
  rfl

theorem IsService.unique {id : Bytes} {name name' : Name} (h : IsService project id name)
    (h' : IsService project id name') : name = name' := by
  obtain ⟨service, hfound, rfl⟩ := h
  obtain ⟨service', hfound', rfl⟩ := h'
  rw [hfound] at hfound'
  cases hfound'
  rfl

/-! ## Triggers -/

theorem dataNames_ok {topicIds : List Bytes} {seen : List (Name × Bytes)} {names : List Name}
    (h : dataNames project topicIds seen = .ok names) :
    List.Forall₂ (IsTopic project) topicIds names ∧ names.Nodup ∧ ∀ n ∈ names, n ∉ seen.map Prod.fst := by
  induction topicIds generalizing seen names with
  | nil =>
    cases h
    exact ⟨.nil, List.nodup_nil, fun _ hn => absurd hn List.not_mem_nil⟩
  | cons topicId topicIds ih =>
    rw [dataNames, bind_eq_ok] at h
    obtain ⟨topic, hfound, h⟩ := h
    obtain ⟨name, hname, h⟩ := bind_eq_ok.mp h
    obtain ⟨-, rfl⟩ := createName_eq_ok.mp hname
    split at h
    · cases h
    · next hnone =>
      obtain ⟨rest, hrest, hnames⟩ := bind_eq_ok.mp h
      cases hnames
      obtain ⟨hall, hnodup, hfresh⟩ := ih hrest
      have hunseen : topic.name ∉ seen.map Prod.fst := by
        intro hin
        obtain ⟨entry, hentry, hkey⟩ := List.mem_map.mp hin
        exact List.find?_eq_none.mp hnone entry hentry (decide_eq_true hkey)
      refine ⟨.cons ⟨topic, hfound, rfl⟩ hall, List.nodup_cons.mpr ⟨fun hin => ?_, hnodup⟩, fun n hn => ?_⟩
      · exact hfresh topic.name hin (by simp)
      · rcases List.mem_cons.mp hn with rfl | hn
        · exact hunseen
        · intro hin
          exact hfresh n hn (by rw [List.map_append]; exact List.mem_append_left _ hin)

theorem serviceNames_ok {serviceIds seen : List Bytes} {names : List Name}
    (h : serviceNames project serviceIds seen = .ok names) :
    List.Forall₂ (IsService project) serviceIds names ∧ serviceIds.Nodup ∧ ∀ id ∈ serviceIds, id ∉ seen := by
  induction serviceIds generalizing seen names with
  | nil =>
    cases h
    exact ⟨.nil, List.nodup_nil, fun _ hn => absurd hn List.not_mem_nil⟩
  | cons serviceId serviceIds ih =>
    rw [serviceNames, then_eq_ok, refuse_eq_ok] at h
    obtain ⟨hunseen, h⟩ := h
    obtain ⟨service, hfound, h⟩ := bind_eq_ok.mp h
    obtain ⟨name, hname, h⟩ := bind_eq_ok.mp h
    obtain ⟨-, rfl⟩ := createName_eq_ok.mp hname
    obtain ⟨rest, hrest, hnames⟩ := bind_eq_ok.mp h
    cases hnames
    obtain ⟨hall, hnodup, hfresh⟩ := ih hrest
    refine ⟨.cons ⟨service, hfound, rfl⟩ hall, List.nodup_cons.mpr ⟨fun hin => ?_, hnodup⟩, fun id hid => ?_⟩
    · exact hfresh serviceId hin List.mem_cons_self
    · rcases List.mem_cons.mp hid with rfl | hid
      · exact hunseen
      · exact fun hin => hfresh id hid (List.mem_cons_of_mem _ hin)

/-- The spec that a trigger's declaration stands for. -/
structure TriggerBuilt (project : ProjectConfig) (trigger : TriggerConfig) (spec : TriggerSpec) : Prop where
  kind : spec.kind = trigger.kind
  topics : List.Forall₂ (IsTopic project) trigger.dataTopics spec.dataDependencies
  topicsNodup : spec.dataDependencies.Nodup
  onlyData : trigger.dataTopics ≠ [] → trigger.kind = .data
  hasTopic : trigger.kind = .data → trigger.dataTopics ≠ []
  tasks : spec.taskDependencies = trigger.taskDependencies
  hasTask : trigger.kind = .taskDependency → trigger.taskDependencies ≠ []
  services : List.Forall₂ (IsService project) trigger.services spec.serviceDependencies
  servicesNodup : trigger.services.Nodup
  onlyService : trigger.services ≠ [] → trigger.kind = .service
  valid : spec.validate.isOk = true

theorem toTriggerSpec_built {trigger : TriggerConfig} {spec : TriggerSpec}
    (h : trigger.toTriggerSpec project = .ok spec) : TriggerBuilt project trigger spec := by
  unfold TriggerConfig.toTriggerSpec at h
  simp only [then_eq_ok, refuse_eq_ok] at h
  obtain ⟨-, -, honlyData, -, hhasTask, honlyService, -, hhasTopic, h⟩ := h
  obtain ⟨topics, htopics, h⟩ := bind_eq_ok.mp h
  obtain ⟨tasks, htasks, h⟩ := bind_eq_ok.mp h
  obtain ⟨services, hservices, h⟩ := bind_eq_ok.mp h
  obtain ⟨hvalid, hspec⟩ := then_eq_ok.mp h
  cases hspec
  obtain ⟨htopics, hnodup, -⟩ := dataNames_ok htopics
  obtain ⟨hservices, hservicesNodup, -⟩ := serviceNames_ok hservices
  have htasks : tasks = trigger.taskDependencies := by
    have hsame : List.Forall₂ (· = ·) trigger.taskDependencies tasks :=
      (mapM_eq_ok.mp htasks).imp fun _ _ hname => (createName_eq_ok.mp hname).2
    exact (List.forall₂_eq_eq_eq ▸ hsame).symm
  exact
    { kind := rfl
      topics := htopics
      topicsNodup := hnodup
      onlyData := fun hne => Classical.byContradiction fun hkind => honlyData ⟨hkind, hne⟩
      hasTopic := fun hkind hnil => hhasTopic ⟨hkind, hnil⟩
      tasks := htasks
      hasTask := fun hkind hnil => hhasTask ⟨hkind, hnil⟩
      services := hservices
      servicesNodup := hservicesNodup
      onlyService := fun hne => Classical.byContradiction fun hkind => honlyService ⟨hkind, hne⟩
      valid := Status.check_eq_ok.mp hvalid }

/-! ## Components -/

theorem toServiceSpec_name {service : ServiceConfig} {spec : ServiceDeclaration} (h : service.toServiceSpec = .ok spec) :
    spec.name = service.name := by
  unfold ServiceConfig.toServiceSpec at h
  obtain ⟨-, h⟩ := then_eq_ok.mp h
  obtain ⟨name, hname, h⟩ := bind_eq_ok.mp h
  obtain ⟨-, rfl⟩ := createName_eq_ok.mp (within_eq_ok.mp hname)
  obtain ⟨-, hspec⟩ := then_eq_ok.mp h
  cases hspec
  rfl

theorem toEndpointConfig_name {topic : TopicConfig} {endpoint : EndpointConfig}
    (h : topic.toEndpointConfig = .ok endpoint) : endpoint.topic.name = topic.name := by
  unfold TopicConfig.toEndpointConfig at h
  obtain ⟨-, h⟩ := then_eq_ok.mp h
  obtain ⟨name, hname, h⟩ := bind_eq_ok.mp h
  obtain ⟨-, rfl⟩ := createName_eq_ok.mp hname
  obtain ⟨-, hendpoint⟩ := then_eq_ok.mp h
  cases hendpoint
  rfl

theorem buildReader_topic {component : ComponentConfig} {topicId : Bytes} {endpoint : EndpointConfig}
    (h : component.buildReader project topicId = .ok endpoint) : IsTopic project topicId endpoint.topic.name := by
  unfold ComponentConfig.buildReader ProjectConfig.buildEndpoint at h
  obtain ⟨built, hbuilt, h⟩ := bind_eq_ok.mp h
  obtain ⟨topic, hfound, hendpoint⟩ := bind_eq_ok.mp hbuilt
  refine ⟨topic, hfound, ?_⟩
  rw [← toEndpointConfig_name hendpoint]
  split at h
  · cases h
    rfl
  · cases h
    rfl

theorem buildServices_ok {component : ComponentConfig} {kind : String} {serviceIds seen : List Bytes}
    {specs : List ServiceDeclaration} (h : component.buildServices project kind serviceIds seen = .ok specs) :
    List.Forall₂ (fun id spec => IsService project id spec.name) serviceIds specs := by
  induction serviceIds generalizing seen specs with
  | nil =>
    cases h
    exact .nil
  | cons serviceId serviceIds ih =>
    rw [ComponentConfig.buildServices, then_eq_ok] at h
    obtain ⟨service, hfound, h⟩ := bind_eq_ok.mp h.2
    obtain ⟨spec, hspec, h⟩ := bind_eq_ok.mp h
    obtain ⟨rest, hrest, hspecs⟩ := bind_eq_ok.mp h
    cases hspecs
    exact .cons ⟨service, within_eq_ok.mp hfound, (toServiceSpec_name hspec).symm⟩ (ih hrest)

theorem buildTriggers_ok {component : ComponentConfig} {readers : List EndpointConfig} {triggers : List TriggerConfig}
    {index : Nat} {claimed : List (Name × Nat)} {specs : List TriggerSpec}
    (h : component.buildTriggers project readers triggers index claimed = .ok specs) :
    List.Forall₂ (TriggerBuilt project) triggers specs ∧
      (∀ topic ∈ dataClaims specs, readers.countP (fun endpoint => endpoint.topic.name = topic) ≤ 1) ∧
      Unclaimed (dataClaims specs) claimed := by
  induction triggers generalizing index claimed specs with
  | nil =>
    cases h
    exact ⟨.nil, fun _ h => absurd h List.not_mem_nil, List.nodup_nil, fun _ h => absurd h List.not_mem_nil⟩
  | cons trigger triggers ih =>
    obtain ⟨spec, hspec, h⟩ := bind_eq_ok.mp h
    obtain ⟨claimed', hclaimed, h⟩ := bind_eq_ok.mp h
    obtain ⟨rest, hrest, hspecs⟩ := bind_eq_ok.mp h
    cases hspecs
    obtain ⟨⟨hsingle, hfree⟩, rfl⟩ := claimIf_eq_ok.mp hclaimed
    obtain ⟨hbuilt, hsingle', hfree'⟩ := ih hrest
    have hclaims : dataClaims (spec :: rest) =
        (if spec.kind = .data then spec.dataDependencies else []) ++ dataClaims rest := List.flatMap_cons
    rw [hclaims]
    refine ⟨.cons (toTriggerSpec_built (within_eq_ok.mp hspec)) hbuilt, fun topic htopic => ?_,
      (unclaimed_append index).mpr ⟨hfree, hfree'⟩⟩
    rcases List.mem_append.mp htopic with htopic | htopic
    · exact Nat.le_of_not_lt (refuse_eq_ok.mp (hsingle topic htopic))
    · exact hsingle' topic htopic

/-- The spec that a component's declaration stands for. -/
structure ComponentBuilt (project : ProjectConfig) (component : ComponentConfig) (spec : ComponentSpec) : Prop where
  name : spec.name = component.name
  readers : List.Forall₂ (fun id endpoint => IsTopic project id endpoint.topic.name) component.readers spec.readers
  servers : List.Forall₂ (fun id service => IsService project id service.name) component.servers spec.servers
  triggers : List.Forall₂ (TriggerBuilt project) component.triggers spec.triggers
  singleReader : ∀ topic ∈ dataClaims spec.triggers,
    spec.readers.countP (fun endpoint => endpoint.topic.name = topic) ≤ 1
  topicsApart : (dataClaims spec.triggers).Nodup
  valid : spec.validate = .ok ()

theorem toComponentSpec_built {component : ComponentConfig} {spec : ComponentSpec}
    (h : component.toComponentSpec project = .ok spec) : ComponentBuilt project component spec := by
  unfold ComponentConfig.toComponentSpec at h
  obtain ⟨name, hname, h⟩ := bind_eq_ok.mp h
  obtain ⟨-, rfl⟩ := createName_eq_ok.mp hname
  obtain ⟨readers, hreaders, h⟩ := bind_eq_ok.mp h
  obtain ⟨-, h⟩ := then_eq_ok.mp h
  obtain ⟨servers, hservers, h⟩ := bind_eq_ok.mp h
  obtain ⟨clients, -, h⟩ := bind_eq_ok.mp h
  obtain ⟨writers, -, h⟩ := bind_eq_ok.mp h
  obtain ⟨triggers, htriggers, h⟩ := bind_eq_ok.mp h
  obtain ⟨hvalid, hspec⟩ := then_eq_ok.mp h
  cases hspec
  obtain ⟨hbuilt, hsingle, hapart, -⟩ := buildTriggers_ok htriggers
  exact
    { name := rfl
      readers := (mapM_eq_ok.mp hreaders).imp fun _ _ => buildReader_topic
      servers := buildServices_ok hservers
      triggers := hbuilt
      singleReader := hsingle
      topicsApart := hapart
      valid := hvalid }

/-- What the triggers of a component name, the component declares. -/
def Declared (component : ComponentConfig) : Prop :=
  ∀ trigger ∈ component.triggers, trigger.dataTopics ⊆ component.readers ∧ trigger.services ⊆ component.servers

theorem componentValidate_ok {component : ComponentConfig} (h : component.validate project = .ok ()) :
    ∃ spec, component.toComponentSpec project = .ok spec ∧ Declared component := by
  unfold ComponentConfig.validate at h
  obtain ⟨spec, hspec, h⟩ := bind_eq_ok.mp h
  refine ⟨spec, hspec, fun trigger htrigger => ?_⟩
  have hdeclared := forM_eq_ok.mp (then_eq_ok.mp h).2 trigger htrigger
  unfold ComponentConfig.checkDeclared at hdeclared
  simp only [then_eq_ok, forM_eq_ok, refuse_eq_ok, not_not] at hdeclared
  exact ⟨fun id hid => hdeclared.1 id hid, fun id hid => hdeclared.2 id hid⟩

/-! ## Services -/

def ownerOf (wireNames : WireNames) (name : Name) : Option Bytes :=
  (wireNames.find? fun entry => entry.1 = name).map Prod.snd

/-- A claimed name is the service's from then on, and no other changes its owner. -/
theorem claimWireName_ok {service : ServiceConfig} {wireNames wireNames' : WireNames} {name : Name}
    (h : claimWireName service wireNames name = .ok wireNames') :
    ownerOf wireNames' name = some (text "service " ++ service.id) ∧
      ∀ n owner, ownerOf wireNames n = some owner → ownerOf wireNames' n = some owner := by
  unfold claimWireName at h
  split at h
  · next hnone =>
    cases h
    constructor
    · simp only [ownerOf, List.find?_append, hnone]
      simp
    · intro n owner howner
      unfold ownerOf at howner ⊢
      obtain ⟨entry, hentry, rfl⟩ := Option.map_eq_some_iff.mp howner
      rw [List.find?_append, hentry]
      rfl
  · next _ owner hfound =>
    obtain ⟨hsame, hnames⟩ := then_eq_ok.mp h
    cases hnames
    refine ⟨?_, fun _ _ howner => howner⟩
    rw [ownerOf, hfound, Option.map_some, Classical.not_not.mp (refuse_eq_ok.mp hsame)]

/-- The names of a service's endpoints; the longest one it uses has been checked too. -/
structure EndpointNames (name : Name) (endpoints : ServiceEndpoints) : Prop where
  request : endpoints.request.topic.name = name ++ text "/" ++ text "request"
  reply : endpoints.reply.topic.name = name ++ text "/" ++ text "reply"
  presence : endpoints.presence.topic.name = name ++ text "/" ++ text "presence"
  perClient : (validateName "topic name" (name ++ text "/" ++ text "reply/0000000000000000")).isOk = true

theorem endpointsFor_names {spec : ServiceDeclaration} {endpoints : ServiceEndpoints}
    (h : endpointsFor spec = .ok endpoints) : EndpointNames spec.name endpoints := by
  unfold endpointsFor at h
  obtain ⟨-, h⟩ := then_eq_ok.mp h
  obtain ⟨request, hrequest, h⟩ := bind_eq_ok.mp h
  obtain ⟨reply, hreply, h⟩ := bind_eq_ok.mp h
  obtain ⟨presence, hpresence, h⟩ := bind_eq_ok.mp h
  obtain ⟨perClient, hperClient, h⟩ := bind_eq_ok.mp h
  obtain ⟨-, rfl⟩ := createName_eq_ok.mp hrequest
  obtain ⟨-, rfl⟩ := createName_eq_ok.mp hreply
  obtain ⟨-, rfl⟩ := createName_eq_ok.mp hpresence
  cases h
  exact ⟨rfl, rfl, rfl, (createName_eq_ok.mp hperClient).1⟩

/-- The service is valid, and its three topics are its own. -/
structure Owns (wireNames : WireNames) (service : ServiceConfig) (spec : ServiceDeclaration)
    (endpoints : ServiceEndpoints) : Prop where
  built : service.toServiceSpec = .ok spec
  resolved : endpointsFor spec = .ok endpoints
  request : ownerOf wireNames endpoints.request.topic.name = some (text "service " ++ service.id)
  reply : ownerOf wireNames endpoints.reply.topic.name = some (text "service " ++ service.id)
  presence : ownerOf wireNames endpoints.presence.topic.name = some (text "service " ++ service.id)

/-- The map of the whole loop: it keeps the owners it started with, and every service owns its topics. -/
theorem validateServiceList_ok {services : List ServiceConfig} {ids : List Bytes} {wireNames : WireNames}
    (h : validateServiceList services ids wireNames = .ok ()) :
    (services.map (·.id)).Nodup ∧ (∀ service ∈ services, service.id ∉ ids)
      ∧ ∃ final, (∀ n owner, ownerOf wireNames n = some owner → ownerOf final n = some owner)
        ∧ ∀ service ∈ services, ∃ spec endpoints, Owns final service spec endpoints := by
  induction services generalizing ids wireNames with
  | nil =>
    exact ⟨List.nodup_nil, fun _ h => absurd h List.not_mem_nil, wireNames, fun _ _ h => h,
      fun _ h => absurd h List.not_mem_nil⟩
  | cons service services ih =>
    rw [validateServiceList] at h
    split at h
    · cases h
    · next hnew =>
      obtain ⟨spec, hspec, h⟩ := bind_eq_ok.mp h
      obtain ⟨endpoints, hendpoints, h⟩ := bind_eq_ok.mp h
      obtain ⟨afterRequest, hrequest, h⟩ := bind_eq_ok.mp h
      obtain ⟨afterReply, hreply, h⟩ := bind_eq_ok.mp h
      obtain ⟨afterPresence, hpresence, h⟩ := bind_eq_ok.mp h
      obtain ⟨hownRequest, hkeepRequest⟩ := claimWireName_ok hrequest
      obtain ⟨hownReply, hkeepReply⟩ := claimWireName_ok hreply
      obtain ⟨hownPresence, hkeepPresence⟩ := claimWireName_ok hpresence
      obtain ⟨hnodup, hfresh, final, hkeep, hall⟩ := ih h
      refine ⟨List.nodup_cons.mpr ⟨fun hin => ?_, hnodup⟩, ?_, final, ?_, ?_⟩
      · obtain ⟨s, hs, hid⟩ := List.mem_map.mp hin
        exact hfresh s hs (hid ▸ List.mem_cons_self)
      · intro s hs hin
        rcases List.mem_cons.mp hs with rfl | hs
        · exact hnew hin
        · exact hfresh s hs (List.mem_cons_of_mem _ hin)
      · intro n owner hn
        exact hkeep _ _ (hkeepPresence _ _ (hkeepReply _ _ (hkeepRequest _ _ hn)))
      · intro s hs
        rcases List.mem_cons.mp hs with rfl | hs
        · exact ⟨spec, endpoints, hspec, hendpoints, hkeep _ _ (hkeepPresence _ _ (hkeepReply _ _ hownRequest)),
            hkeep _ _ (hkeepPresence _ _ hownReply), hkeep _ _ hownPresence⟩
        · exact hall s hs

/-- Two services with one name would own one request topic. -/
theorem service_of_name (h : validateServices project = .ok ()) {service service' : ServiceConfig}
    (hmem : service ∈ project.services) (hmem' : service' ∈ project.services) (hname : service.name = service'.name) :
    service = service' := by
  obtain ⟨hnodup, -, final, -, hall⟩ := validateServiceList_ok h
  obtain ⟨spec, endpoints, hown⟩ := hall service hmem
  obtain ⟨spec', endpoints', hown'⟩ := hall service' hmem'
  have hrequest := hown.request
  have hrequest' := hown'.request
  rw [(endpointsFor_names hown.resolved).request, toServiceSpec_name hown.built, hname] at hrequest
  rw [(endpointsFor_names hown'.resolved).request, toServiceSpec_name hown'.built, hrequest] at hrequest'
  exact List.inj_on_of_nodup_map hnodup hmem hmem' (List.append_cancel_left (Option.some.inj hrequest'))

theorem isService_injective (h : validateServices project = .ok ()) {id id' : Bytes} {name : Name}
    (hid : IsService project id name) (hid' : IsService project id' name) : id = id' := by
  have hfound : ∀ {id : Bytes} {service : ServiceConfig}, project.findService id = .ok service →
      service ∈ project.services ∧ service.id = id := by
    intro id service hservice
    unfold ProjectConfig.findService at hservice
    split at hservice
    · next found hfind =>
      cases hservice
      exact ⟨List.mem_of_find?_eq_some hfind, by simpa using List.find?_some hfind⟩
    · cases hservice
  obtain ⟨service, hservice, rfl⟩ := hid
  obtain ⟨service', hservice', hname⟩ := hid'
  obtain ⟨hmem, rfl⟩ := hfound hservice
  obtain ⟨hmem', rfl⟩ := hfound hservice'
  rw [service_of_name h hmem hmem' hname.symm]

/-! ## Names and task dependencies -/

theorem validateUnique_ok {what : String} {keys seen : List Bytes} (h : validateUnique what keys seen = .ok ()) :
    keys.Nodup ∧ ∀ key ∈ keys, key ∉ seen := by
  induction keys generalizing seen with
  | nil => exact ⟨List.nodup_nil, fun _ h => absurd h List.not_mem_nil⟩
  | cons key keys ih =>
    rw [validateUnique] at h
    split at h
    · cases h
    · next hnew =>
      obtain ⟨hnodup, hfresh⟩ := ih h
      refine ⟨List.nodup_cons.mpr ⟨fun hin => hfresh key hin List.mem_cons_self, hnodup⟩, fun k hk => ?_⟩
      rcases List.mem_cons.mp hk with rfl | hk
      · exact hnew
      · exact fun hin => hfresh k hk (List.mem_cons_of_mem _ hin)

/-- Every task dependency is on another component, and goes up in `rank`. -/
def Ordered (components : List ComponentConfig) (rank : Name → Nat) : Prop :=
  ∀ component ∈ components, ∀ trigger ∈ component.triggers, trigger.kind = .taskDependency →
    Upstreams (components.map (·.name)) component.name trigger.taskDependencies ∧
      ∀ upstream ∈ trigger.taskDependencies, rank upstream < rank component.name

theorem validateTaskDependencies_ok {components : List ComponentConfig} (hnames : (components.map (·.name)).Nodup)
    (h : validateTaskDependencies components = .ok ()) : ∃ rank, Ordered components rank := by
  obtain ⟨hups, hacyclic⟩ := (validateTaskDependencies_iff hnames).mp h
  obtain ⟨rank, hrank⟩ := exists_rank_iff.mpr hacyclic
  refine ⟨rank, fun component hc trigger ht hkind => ⟨hups component hc trigger ht hkind, fun u hu => ?_⟩⟩
  exact hrank (u, component.name) (mem_declaredEdges.mpr ⟨component, hc, trigger, ht, hkind, hu, rfl⟩)

/-! ## The project -/

structure Checked (project : ProjectConfig) : Prop where
  names : (project.components.map (·.name)).Nodup
  services : ∀ {id id' name}, IsService project id name → IsService project id' name → id = id'
  components : ∀ component ∈ project.components, ∃ spec, component.toComponentSpec project = .ok spec ∧ Declared component
  tasks : ∃ rank, Ordered project.components rank

theorem checked_of_validate (h : project.validate = .ok ()) : Checked project := by
  unfold ProjectConfig.validate at h
  simp only [then_eq_ok] at h
  obtain ⟨-, -, -, hunique, -, -, hservices, hcomponents, htasks⟩ := h
  have hnames := (validateUnique_ok hunique).1
  exact
    { names := hnames
      services := isService_injective hservices
      components := fun component hc => componentValidate_ok (forM_eq_ok.mp hcomponents component hc)
      tasks := validateTaskDependencies_ok hnames htasks }

end PuppetMaster.Configuration
