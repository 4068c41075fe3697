/-
  PuppetMaster.Shm.OptionsAgree — when two processes of one deployment agree on a topic.

  Both options of a project have a closed form in its settings (`optionsFromProject_eq`):
  the domain is the first one set on an ipc topic or service, and each ring size of a topic
  is the nearest setting that reaches it (`settingsFor`): its own or its service's, then
  that of the nearest service of whose reply topics it could be one, and so on through the
  services declared before.

  So two processes agree on a shared topic exactly when these settings are the same
  (`processes_agree_iff`). A topic that the deployment sizes has its own settings
  (`sized_topic_same_ring`); `a_reply_topic_of_another_service` is the case that is left
  open: only one of the two declares the service under whose reply topics the name lies.
-/

import PuppetMaster.Configuration.Deployment
import PuppetMaster.Configuration.WireTopics
import PuppetMaster.Shm.Options

namespace PuppetMaster.Shm

open PuppetMaster.Core PuppetMaster.Lib PuppetMaster.Scheduler PuppetMaster.Configuration

/-! ## The settings that reach a topic -/

/-- The first of some parameter sets to set `key` decides. -/
def settingIn (sources : List ParameterMap) (key : String) (fallback : Nat) : Nat :=
  settingOr fallback (sources.findSome? fun parameters => parameters.find? (text key))

/-- Through the reply topics that a name lies under. The services come latest first. -/
def inheritedSettings : List ServiceConfig → Name → List ParameterMap
  | [], _ => []
  | service :: before, name =>
    if replies service <+: name ∧
        ∀ other ∈ before, replies other <+: name → (replies other).length < (replies service).length then
      service.transportParameters :: inheritedSettings before (requestTopic service)
    else inheritedSettings before name

def wireTopics (service : ServiceConfig) : List Name := [requestTopic service, replyTopic service, presenceTopic service]

/-- Those of the service whose topic it is, over what its request topic takes from the services before. -/
def serviceSettings : List ServiceConfig → Name → Option (List ParameterMap)
  | [], _ => none
  | service :: before, name =>
    if name ∈ wireTopics service then
      some (service.transportParameters :: inheritedSettings before (requestTopic service))
    else serviceSettings before name

def topicSettings (topics : List TopicConfig) (name : Name) : Option (List ParameterMap) :=
  (topics.find? fun topic => Sized topic.transportParameters && topic.name = name).map fun topic =>
    [topic.transportParameters]

/-- The settings of a name that an entry names. -/
def exactSettings (topics : List TopicConfig) (services : List ServiceConfig) (name : Name) :
    Option (List ParameterMap) :=
  (topicSettings topics name).or (serviceSettings services name)

def ipcTopics (project : ProjectConfig) : List TopicConfig := project.topics.filter fun topic => topic.transport = .ipc

/-- The ipc services with ring sizes, latest first. -/
def sizedServices (project : ProjectConfig) : List ServiceConfig :=
  (project.services.filter fun service => service.transport = .ipc && Sized service.transportParameters).reverse

def settingsFor (project : ProjectConfig) (name : Name) : List ParameterMap :=
  (exactSettings (ipcTopics project) (sizedServices project) name).getD (inheritedSettings (sizedServices project) name)

/-- The ring that some settings give, the nearest first. -/
def ringOf (sources : List ParameterMap) : TopicOptions :=
  ⟨settingIn sources "slot_payload_size" 65536, settingIn sources "slot_count" 16⟩

theorem settingIn_cons (parameters : ParameterMap) (sources : List ParameterMap) (key : String) (fallback : Nat) :
    settingIn (parameters :: sources) key fallback =
      settingOr (settingIn sources key fallback) (parameters.find? (text key)) := by
  unfold settingIn
  rw [List.findSome?_cons]
  cases parameters.find? (text key) with
  | none => rfl
  | some value => rfl

/-- Settings over the ring that other settings gave. -/
theorem ringOf_cons (parameters : ParameterMap) (sources : List ParameterMap) :
    ringOf (parameters :: sources) =
      ⟨settingOr (ringOf sources).slotPayloadSize (parameters.find? (text "slot_payload_size")),
        settingOr (ringOf sources).slotCount (parameters.find? (text "slot_count"))⟩ := by
  rw [ringOf, settingIn_cons, settingIn_cons]
  rfl

theorem settingOr_settingOr (fallback : Nat) (setting : Option Bytes) :
    settingOr (settingOr fallback setting) setting = settingOr fallback setting := by
  cases setting with
  | none => rfl
  | some value => rfl

theorem ringOf_twice (parameters : ParameterMap) : ringOf [parameters, parameters] = ringOf [parameters] := by
  rw [ringOf_cons, ringOf_cons, settingOr_settingOr, settingOr_settingOr]

/-! ## One entry -/

theorem has_eq {parameters : ParameterMap} {key : String} :
    parameters.has key = (parameters.find? (text key)).isSome := rfl

theorem setDomain_ok {state state' : Applied} {parameters : ParameterMap} (h : setDomain state parameters = .ok state') :
    state'.base = { state.base with domainId := settingOr state.base.domainId (parameters.find? (text "domain_id")) } ∧
      state'.domainSet = (state.domainSet || parameters.has "domain_id") ∧
      (state.domainSet = true → state'.base.domainId = state.base.domainId) := by
  unfold setDomain at h
  obtain ⟨domain, hdomain, h⟩ := bind_eq_ok.mp h
  have hvalue := getParameter_eq_ok hdomain
  split at h
  · next hhas =>
    obtain ⟨hsame, h⟩ := then_eq_ok.mp h
    cases h
    refine ⟨by rw [hvalue], by rw [hhas, Bool.or_true], fun hset => ?_⟩
    exact Classical.byContradiction fun hne => refuse_eq_ok.mp hsame ⟨hset, hne⟩
  · next hhas =>
    cases h
    have hnone : parameters.find? (text "domain_id") = none := by simpa [has_eq] using hhas
    refine ⟨by rw [hnone]; rfl, ?_, fun _ => rfl⟩
    rw [Bool.eq_false_of_not_eq_true hhas, Bool.or_false]

/-- The ring of an entry, over what its first topic has so far. -/
def entryRing (base : Options) (entry : Entry) : TopicOptions :=
  ⟨settingOr (base.forTopic entry.front).slotPayloadSize (entry.parameters.find? (text "slot_payload_size")),
    settingOr (base.forTopic entry.front).slotCount (entry.parameters.find? (text "slot_count"))⟩

theorem setGeometry_ok {base base' : Options} {entry : Entry} (h : setGeometry base entry = .ok base') :
    base' = if Sized entry.parameters then setRing base entry (entryRing base entry) else base := by
  unfold setGeometry at h
  split at h
  · next hsized =>
    obtain ⟨payload, hpayload, h⟩ := bind_eq_ok.mp h
    obtain ⟨slots, hslots, h⟩ := bind_eq_ok.mp h
    obtain ⟨-, h⟩ := then_eq_ok.mp h
    cases h
    rw [if_pos hsized, getParameter_eq_ok hpayload, getParameter_eq_ok hslots]
    rfl
  · next hsized =>
    cases h
    rw [if_neg hsized]

/-- What an entry does to the options: the domain, and the rings. -/
structure EntryApplied (state : Applied) (entry : Entry) (state' : Applied) : Prop where
  domain : state'.base.domainId = settingOr state.base.domainId (entry.parameters.find? (text "domain_id"))
  domainSet : state'.domainSet = (state.domainSet || entry.parameters.has "domain_id")
  domainKept : state.domainSet = true → state'.base.domainId = state.base.domainId
  defaultTopic : state'.base.defaultTopic = state.base.defaultTopic
  topics : state'.base.topics =
    if Sized entry.parameters then (setRing state.base entry (entryRing state.base entry)).topics else state.base.topics
  topicPrefixes : state'.base.topicPrefixes =
    if Sized entry.parameters then (setRing state.base entry (entryRing state.base entry)).topicPrefixes
    else state.base.topicPrefixes

theorem applyEntry_ok {state state' : Applied} {entry : Entry} (h : applyEntry state entry = .ok state') :
    EntryApplied state entry state' := by
  unfold applyEntry at h
  obtain ⟨-, h⟩ := then_eq_ok.mp (within_eq_ok.mp h)
  obtain ⟨placed, hplaced, h⟩ := bind_eq_ok.mp h
  obtain ⟨base, hbase, h⟩ := bind_eq_ok.mp h
  cases h
  obtain ⟨hdomain, hset, hkept⟩ := setDomain_ok hplaced
  cases setGeometry_ok hbase
  -- the domain plays no part in the rings
  have hring : entryRing placed.base entry = entryRing state.base entry := by
    rw [hdomain]
    rfl
  rw [hring]
  by_cases hsized : Sized entry.parameters = true
  · rw [if_pos hsized]
    refine ⟨by rw [setRing, hdomain], hset, hkept, by rw [setRing, hdomain], ?_, ?_⟩
    · rw [if_pos hsized, hdomain]
      rfl
    · rw [if_pos hsized, hdomain]
      rfl
  · rw [if_neg hsized]
    refine ⟨by rw [hdomain], hset, hkept, by rw [hdomain], ?_, ?_⟩
    · rw [if_neg hsized, hdomain]
    · rw [if_neg hsized, hdomain]

/-! ## The domain -/

/-- The first entry that sets the domain decides; the others have to agree. -/
theorem applied_domain {entries : List Entry} {state state' : Applied}
    (h : entries.foldlM applyEntry state = .ok state') :
    state'.base.domainId =
      if state.domainSet then state.base.domainId
      else settingIn (entries.map (·.parameters)) "domain_id" state.base.domainId := by
  induction entries generalizing state with
  | nil =>
    cases h
    split
    · rfl
    · rfl
  | cons entry entries ih =>
    rw [List.foldlM_cons] at h
    obtain ⟨next, hnext, h⟩ := bind_eq_ok.mp h
    have happlied := applyEntry_ok hnext
    rw [ih h, happlied.domainSet, List.map_cons, settingIn_cons]
    by_cases hset : state.domainSet = true
    · rw [hset, Bool.true_or, if_pos rfl, if_pos rfl, happlied.domainKept hset]
    · rw [Bool.eq_false_of_not_eq_true hset, Bool.false_or, happlied.domain, has_eq]
      cases entry.parameters.find? (text "domain_id") with
      | none => rfl
      | some value => rfl

/-! ## The rings of the topics -/

/-- Declarations of one name have the same parameters. -/
def SameByName (topics : List TopicConfig) : Prop :=
  ∀ topic ∈ topics, ∀ other ∈ topics, topic.name = other.name → topic.transportParameters = other.transportParameters

/-- The options after the entries of some topics. -/
structure TopicsApplied (topics : List TopicConfig) (base : Options) : Prop where
  defaultTopic : base.defaultTopic = {}
  exact : ∀ name, base.topics.find? name = (topicSettings topics name).map ringOf
  topicPrefixes : base.topicPrefixes = .empty

theorem topicSettings_snoc (topics : List TopicConfig) (topic : TopicConfig) (name : Name) :
    topicSettings (topics ++ [topic]) name =
      (topicSettings topics name).or
        (if Sized topic.transportParameters ∧ topic.name = name then some [topic.transportParameters] else none) := by
  unfold topicSettings
  rw [List.find?_append, Option.map_or]
  congr 1
  by_cases h : Sized topic.transportParameters ∧ topic.name = name
  · rw [if_pos h, List.find?_cons_of_pos (by simpa using h)]
    rfl
  · rw [if_neg h, List.find?_cons_of_neg (by simpa using h)]
    rfl

/-- What another declaration of the topic has set already. -/
theorem topicSettings_same {topics : List TopicConfig} {topic : TopicConfig} (hsame : SameByName (topics ++ [topic])) :
    topicSettings topics topic.name = none ∨ topicSettings topics topic.name = some [topic.transportParameters] := by
  unfold topicSettings
  cases hfound : topics.find? fun t => Sized t.transportParameters && t.name = topic.name with
  | none => exact .inl rfl
  | some first =>
    have hmatch := List.find?_some hfound
    have hname : first.name = topic.name := by simpa using (Bool.and_eq_true_iff.mp hmatch).2
    have hmem : first ∈ topics ++ [topic] := List.mem_append_left _ (List.mem_of_find?_eq_some hfound)
    right
    rw [Option.map_some, hsame first hmem topic (by simp) hname]

theorem TopicsApplied.step {topics : List TopicConfig} {topic : TopicConfig} {state state' : Applied}
    (hdone : TopicsApplied topics state.base) (hsame : SameByName (topics ++ [topic]))
    (h : applyEntry state (topicEntry topic) = .ok state') : TopicsApplied (topics ++ [topic]) state'.base := by
  have happlied := applyEntry_ok h
  have hprefixes : state'.base.topicPrefixes = .empty := by
    rw [happlied.topicPrefixes]
    split
    · rw [setRing, topicEntry, if_pos rfl, hdone.topicPrefixes]
    · exact hdone.topicPrefixes
  refine ⟨happlied.defaultTopic.trans hdone.defaultTopic, fun name => ?_, hprefixes⟩
  rw [happlied.topics, topicSettings_snoc]
  by_cases hsized : Sized topic.transportParameters = true
  · -- a second declaration of the name sets what the first one set
    have hring : entryRing state.base (topicEntry topic) = ringOf [topic.transportParameters] := by
      have hfor : state.base.forTopic topic.name = ringOf [] ∨
          state.base.forTopic topic.name = ringOf [topic.transportParameters] := by
        rw [Options.forTopic, hdone.exact, hdone.topicPrefixes, hdone.defaultTopic]
        rcases topicSettings_same hsame with hnone | hfound
        · rw [hnone]
          exact .inl rfl
        · rw [hfound]
          exact .inr rfl
      rcases hfor with hfor | hfor
      · rw [ringOf_cons, ← hfor]
        rfl
      · rw [← ringOf_twice, ringOf_cons, ← hfor]
        rfl
    rw [if_pos (show Sized (topicEntry topic).parameters = true from hsized), hring]
    have hinsert : ((setRing state.base (topicEntry topic) (ringOf [topic.transportParameters])).topics.find? name) =
        if name = topic.name then some (ringOf [topic.transportParameters]) else state.base.topics.find? name :=
      SortedMap.find?_insert _ _ _ _
    rw [hinsert, hdone.exact]
    by_cases hname : name = topic.name
    · subst hname
      rw [if_pos rfl, if_pos ⟨hsized, rfl⟩]
      rcases topicSettings_same hsame with hnone | hfound
      · rw [hnone]
        rfl
      · rw [hfound]
        rfl
    · rw [if_neg hname, if_neg (fun h => hname h.2.symm), Option.or_none]
  · rw [if_neg (show ¬ Sized (topicEntry topic).parameters = true from hsized), if_neg (fun h => hsized h.1),
      Option.or_none]
    exact hdone.exact name

theorem TopicsApplied.run {rest topics : List TopicConfig} {state state' : Applied}
    (hdone : TopicsApplied topics state.base) (hsame : SameByName (topics ++ rest))
    (h : (rest.map topicEntry).foldlM applyEntry state = .ok state') : TopicsApplied (topics ++ rest) state'.base := by
  induction rest generalizing topics state with
  | nil =>
    cases h
    rwa [List.append_nil]
  | cons topic rest ih =>
    rw [List.map_cons, List.foldlM_cons] at h
    obtain ⟨next, hnext, h⟩ := bind_eq_ok.mp h
    have hfirst : SameByName (topics ++ [topic]) := by
      refine fun t ht t' ht' => hsame t ?_ t' ?_
      · rcases List.mem_append.mp ht with ht | ht
        · exact List.mem_append_left _ ht
        · exact List.mem_append_right _ (List.mem_singleton.mp ht ▸ List.mem_cons_self)
      · rcases List.mem_append.mp ht' with ht' | ht'
        · exact List.mem_append_left _ ht'
        · exact List.mem_append_right _ (List.mem_singleton.mp ht' ▸ List.mem_cons_self)
    have hsplit : topics ++ topic :: rest = (topics ++ [topic]) ++ rest := by simp
    rw [hsplit] at hsame ⊢
    exact ih (hdone.step hfirst hnext) hsame h

/-! ## The rings of the services -/

/-- The options after the entries of the topics and of some services; `done` are those with ring sizes. -/
structure ServicesApplied (topics : List TopicConfig) (done : List ServiceConfig) (base : Options) : Prop where
  defaultTopic : base.defaultTopic = {}
  exact : ∀ name, base.topics.find? name = (exactSettings topics done name).map ringOf
  under : ∀ name, nearest name {} base.topicPrefixes.entries = ringOf (inheritedSettings done name)
  keys : ∀ key, key ∈ base.topicPrefixes.keys ↔ ∃ service ∈ done, replies service = key

/-- Nobody else has a topic of the service. -/
structure Apart (topics : List TopicConfig) (done : List ServiceConfig) (service : ServiceConfig) : Prop where
  topics : ∀ topic ∈ topics, topic.name ∉ wireTopics service
  services : ∀ other ∈ done, ∀ name ∈ wireTopics service, name ∉ wireTopics other

theorem serviceSettings_eq_none {done : List ServiceConfig} {name : Name} (h : ∀ other ∈ done, name ∉ wireTopics other) :
    serviceSettings done name = none := by
  induction done with
  | nil => rfl
  | cons service done ih =>
    rw [serviceSettings, if_neg (h service List.mem_cons_self)]
    exact ih fun other hother => h other (List.mem_cons_of_mem _ hother)

variable {topics : List TopicConfig} {done : List ServiceConfig} {service : ServiceConfig}

theorem Apart.topicSettings (h : Apart topics done service) {name : Name} (hname : name ∈ wireTopics service) :
    topicSettings topics name = none := by
  rw [Shm.topicSettings, Option.map_eq_none_iff, List.find?_eq_none]
  intro topic htopic hmatch
  have heq : topic.name = name := by simpa using (Bool.and_eq_true_iff.mp hmatch).2
  exact h.topics topic htopic (heq ▸ hname)

theorem Apart.exactSettings (h : Apart topics done service) {name : Name} (hname : name ∈ wireTopics service) :
    exactSettings topics done name = none := by
  rw [Shm.exactSettings, h.topicSettings hname, serviceSettings_eq_none fun other hother => h.services other hother name hname]
  rfl

theorem Apart.replies_ne (h : Apart topics done service) {other : ServiceConfig} (hother : other ∈ done) :
    replies other ≠ replies service := by
  intro heq
  have hname : other.name = service.name := List.append_cancel_right heq
  refine h.services other hother (requestTopic service) (by simp [wireTopics]) ?_
  rw [requestTopic, ← hname]
  exact List.mem_cons_self

theorem replies_ne_nil : replies service ≠ [] := by
  intro h
  exact absurd (List.append_eq_nil_iff.mp h).2 (by decide +kernel)

theorem exactSettings_cons (h : Apart topics done service) (name : Name) :
    exactSettings topics (service :: done) name =
      if name ∈ wireTopics service then
        some (service.transportParameters :: inheritedSettings done (requestTopic service))
      else exactSettings topics done name := by
  rw [exactSettings, serviceSettings]
  by_cases hname : name ∈ wireTopics service
  · rw [if_pos hname, if_pos hname, h.topicSettings hname]
    rfl
  · rw [if_neg hname, if_neg hname]
    rfl

/-- The ring of a service, over what its request topic takes from the services before. -/
theorem ServicesApplied.entryRing_eq {base : Options} (hdone : ServicesApplied topics done base)
    (h : Apart topics done service) :
    entryRing base (serviceEntry service) =
      ringOf (service.transportParameters :: inheritedSettings done (requestTopic service)) := by
  have hfor : base.forTopic (requestTopic service) = ringOf (inheritedSettings done (requestTopic service)) := by
    rw [Options.forTopic, hdone.exact, h.exactSettings (by simp [wireTopics]), hdone.defaultTopic]
    exact hdone.under _
  rw [ringOf_cons, ← hfor]
  rfl

theorem ServicesApplied.insert {base base' : Options} (hdone : ServicesApplied topics done base)
    (h : Apart topics done service)
    (htopics : base'.topics = (setRing base (serviceEntry service) (entryRing base (serviceEntry service))).topics)
    (hprefixes : base'.topicPrefixes =
      (setRing base (serviceEntry service) (entryRing base (serviceEntry service))).topicPrefixes)
    (hdefault : base'.defaultTopic = {}) : ServicesApplied topics (service :: done) base' := by
  rw [hdone.entryRing_eq h] at htopics hprefixes
  have hinsert : base'.topicPrefixes = base.topicPrefixes.insert (replies service)
      (ringOf (service.transportParameters :: inheritedSettings done (requestTopic service))) := by
    rw [hprefixes, setRing, serviceEntry, if_neg replies_ne_nil]
  have hfresh : ∀ entry ∈ base.topicPrefixes.entries, entry.1 ≠ replies service := by
    intro entry hentry heq
    obtain ⟨other, hother, hkey⟩ := (hdone.keys entry.1).mp (List.mem_map_of_mem hentry)
    exact h.replies_ne hother (hkey.trans heq)
  refine ⟨hdefault, fun name => ?_, fun name => ?_, fun key => ?_⟩
  · rw [htopics, exactSettings_cons h]
    refine (SortedMap.find?_foldl_insert (wireTopics service) _ base.topics name).trans ?_
    by_cases hname : name ∈ wireTopics service
    · rw [if_pos hname, if_pos hname]
      rfl
    · rw [if_neg hname, if_neg hname]
      exact hdone.exact name
  · have hperm : base'.topicPrefixes.entries.Perm ((replies service,
        ringOf (service.transportParameters :: inheritedSettings done (requestTopic service)))
          :: base.topicPrefixes.entries) := by
      rw [hinsert]
      exact SortedMap.insertEntry_perm _ hfresh
    rw [nearest_cons hperm (SortedMap.keys_nodup _) replies_ne_nil, hdone.under, inheritedSettings]
    -- the entries that are there are those of the services before
    have hothers : (∀ other ∈ base.topicPrefixes.entries, other.1 <+: name → other.1.length < (replies service).length) ↔
        ∀ other ∈ done, replies other <+: name → (replies other).length < (replies service).length := by
      constructor
      · intro hall other hother
        obtain ⟨entry, hentry, hkey⟩ := List.mem_map.mp ((hdone.keys (replies other)).mpr ⟨other, hother, rfl⟩)
        exact hkey ▸ hall entry hentry
      · intro hall entry hentry
        obtain ⟨other, hother, hkey⟩ := (hdone.keys entry.1).mp (List.mem_map_of_mem hentry)
        exact hkey ▸ hall other hother
    simp only [hothers]
    split
    · rfl
    · rfl
  · rw [hinsert, SortedMap.mem_keys_insert, hdone.keys]
    simp only [List.mem_cons, exists_eq_or_imp]
    exact or_congr_left ⟨Eq.symm, Eq.symm⟩

theorem ServicesApplied.step {state state' : Applied} (hdone : ServicesApplied topics done state.base)
    (hapart : Apart topics done service) (h : applyEntry state (serviceEntry service) = .ok state') :
    ServicesApplied topics (if Sized service.transportParameters then service :: done else done) state'.base := by
  have happlied := applyEntry_ok h
  have htopics := happlied.topics
  have hprefixes := happlied.topicPrefixes
  have hdefault := happlied.defaultTopic.trans hdone.defaultTopic
  by_cases hsized : Sized service.transportParameters = true
  · rw [if_pos (show Sized (serviceEntry service).parameters = true from hsized)] at htopics hprefixes
    rw [if_pos hsized]
    exact hdone.insert hapart htopics hprefixes hdefault
  · rw [if_neg (show ¬ Sized (serviceEntry service).parameters = true from hsized)] at htopics hprefixes
    rw [if_neg hsized]
    exact ⟨hdefault, fun name => by rw [htopics, hdone.exact], fun name => by rw [hprefixes, hdone.under],
      fun key => by rw [hprefixes, hdone.keys]⟩

theorem ServicesApplied.run {rest : List ServiceConfig} {state state' : Applied}
    (hdone : ServicesApplied topics done state.base)
    (htopics : ∀ service ∈ rest, ∀ topic ∈ topics, topic.name ∉ wireTopics service)
    (hbefore : ∀ service ∈ rest, ∀ other ∈ done, ∀ name ∈ wireTopics service, name ∉ wireTopics other)
    (hrest : rest.Pairwise fun other service => ∀ name ∈ wireTopics service, name ∉ wireTopics other)
    (h : (rest.map serviceEntry).foldlM applyEntry state = .ok state') :
    ServicesApplied topics ((rest.filter fun service => Sized service.transportParameters).reverse ++ done)
      state'.base := by
  induction rest generalizing done state with
  | nil =>
    cases h
    exact hdone
  | cons service rest ih =>
    rw [List.map_cons, List.foldlM_cons] at h
    obtain ⟨next, hnext, h⟩ := bind_eq_ok.mp h
    obtain ⟨hfirst, hothers⟩ := List.pairwise_cons.mp hrest
    have hstep := hdone.step ⟨htopics service List.mem_cons_self, hbefore service List.mem_cons_self⟩ hnext
    have htopics' := fun s hs => htopics s (List.mem_cons_of_mem _ hs)
    have hbefore' := fun s hs => hbefore s (List.mem_cons_of_mem service hs)
    by_cases hsized : Sized service.transportParameters = true
    · rw [if_pos hsized] at hstep
      have hbefore'' : ∀ s ∈ rest, ∀ other ∈ service :: done, ∀ name ∈ wireTopics s, name ∉ wireTopics other :=
        fun s hs => List.forall_mem_cons.mpr ⟨hfirst s hs, hbefore' s hs⟩
      rw [List.filter_cons, if_pos hsized, List.reverse_cons, List.append_assoc, List.singleton_append]
      exact ih hstep htopics' hbefore'' hothers h
    · rw [if_neg hsized] at hstep
      rw [List.filter_cons, if_neg hsized]
      exact ih hstep htopics' hbefore' hothers h

/-! ## The options of a project -/

variable {project : ProjectConfig}

/-- A name that a service has on the wire is owned by it. -/
theorem Owns.wireTopic {wireNames : WireNames} {spec : Service.ServiceDeclaration} {endpoints : Service.ServiceEndpoints}
    (h : Owns wireNames service spec endpoints) {name : Name} (hname : name ∈ wireTopics service) :
    ownerOf wireNames name = some (text "service " ++ service.id) := by
  have hnames := endpointsFor_names h.resolved
  have hrequest := h.request
  have hreply := h.reply
  have hpresence := h.presence
  rw [hnames.request, toServiceSpec_name h.built, List.append_assoc] at hrequest
  rw [hnames.reply, toServiceSpec_name h.built, List.append_assoc] at hreply
  rw [hnames.presence, toServiceSpec_name h.built, List.append_assoc] at hpresence
  have hjoin : text "/" ++ text "request" = text "/request" ∧ text "/" ++ text "reply" = text "/reply" ∧
      text "/" ++ text "presence" = text "/presence" := by decide +kernel
  rw [hjoin.1] at hrequest
  rw [hjoin.2.1] at hreply
  rw [hjoin.2.2] at hpresence
  simp only [wireTopics, List.mem_cons, List.not_mem_nil, or_false] at hname
  rcases hname with rfl | rfl | rfl
  · exact hrequest
  · exact hreply
  · exact hpresence

theorem topics_apart (h : validateServices project = .ok ()) :
    ∀ service ∈ project.services, ∀ topic ∈ project.topics, topic.name ∉ wireTopics service := by
  obtain ⟨wireNames, htopics, hservices⟩ := owners_of_validate h
  intro service hservice topic htopic hname
  obtain ⟨id, howner⟩ := htopics topic htopic
  obtain ⟨spec, endpoints, hown⟩ := hservices service hservice
  exact topic_ne_service id service.id (Option.some.inj (howner.symm.trans (Owns.wireTopic hown hname)))

theorem services_apart (h : validateServices project = .ok ()) :
    project.services.Pairwise fun other service => ∀ name ∈ wireTopics service, name ∉ wireTopics other := by
  obtain ⟨wireNames, -, hservices⟩ := owners_of_validate h
  have hids := (validateServiceList_ok h).1
  rw [List.Nodup, List.pairwise_map] at hids
  refine hids.imp_of_mem fun hother hservice hne name hname hname' => ?_
  obtain ⟨spec, endpoints, hown⟩ := hservices _ hservice
  obtain ⟨spec', endpoints', hown'⟩ := hservices _ hother
  have hsame := Option.some.inj ((Owns.wireTopic hown' hname').symm.trans (Owns.wireTopic hown hname))
  exact hne (List.append_cancel_left hsame)

theorem entries_ne_nil_of_sized {parameters : ParameterMap} (h : Sized parameters = true) : parameters.entries ≠ [] := by
  intro hnil
  have hnone : ∀ key, parameters.find? key = none := fun key => by rw [SortedMap.find?, hnil]; rfl
  simp [Sized, has_eq, hnone] at h

theorem topicSettings_filter (name : Name) :
    topicSettings (project.topics.filter topicHasSettings) name = topicSettings (ipcTopics project) name := by
  unfold topicSettings ipcTopics
  rw [List.find?_filter, List.find?_filter]
  congr 2
  funext topic
  by_cases hsized : Sized topic.transportParameters = true
  · simp [topicHasSettings, entries_ne_nil_of_sized hsized]
  · simp [hsized]

theorem sizedServices_filter :
    ((project.services.filter serviceHasSettings).filter fun service => Sized service.transportParameters).reverse =
      sizedServices project := by
  rw [sizedServices, List.filter_filter]
  congr 2
  funext service
  by_cases hsized : Sized service.transportParameters = true
  · simp [serviceHasSettings, hsized, entries_ne_nil_of_sized hsized]
  · simp [hsized]

/-- The first domain set on an ipc topic or service, or 0. -/
def domainOf (project : ProjectConfig) : Nat := settingIn ((entriesOf project).map (·.parameters)) "domain_id" 0

theorem optionsFromProject_eq {options : Options} (hvalid : project.validate = .ok ())
    (hsame : SameByName project.topics) (h : optionsFromProject project {} = .ok options) :
    options.domainId = domainOf project ∧ ∀ name, options.forTopic name = ringOf (settingsFor project name) := by
  unfold optionsFromProject at h
  obtain ⟨state, hstate, h⟩ := bind_eq_ok.mp h
  obtain ⟨-, h⟩ := then_eq_ok.mp h
  cases h
  refine ⟨applied_domain hstate, fun name => ?_⟩
  have hservices : validateServices project = .ok () := by
    unfold ProjectConfig.validate at hvalid
    simp only [then_eq_ok] at hvalid
    exact hvalid.2.2.2.2.2.2.1
  rw [entriesOf, List.foldlM_append] at hstate
  obtain ⟨middle, hmiddle, hstate⟩ := bind_eq_ok.mp hstate
  have hsame' : SameByName ([] ++ project.topics.filter topicHasSettings) := fun t ht t' ht' =>
    hsame t (List.mem_of_mem_filter ht) t' (List.mem_of_mem_filter ht')
  have hempty : TopicsApplied [] ({} : Options) := ⟨rfl, fun _ => rfl, rfl⟩
  have hfirst := hempty.run hsame' hmiddle
  have hstart : ServicesApplied (project.topics.filter topicHasSettings) [] middle.base := by
    refine ⟨hfirst.defaultTopic, fun n => ?_, fun n => by rw [hfirst.topicPrefixes]; rfl, fun key => ?_⟩
    · rw [hfirst.exact, exactSettings, serviceSettings, Option.or_none]
      rfl
    · rw [hfirst.topicPrefixes]
      simp [SortedMap.keys, SortedMap.empty]
  have hfinal := hstart.run
    (fun s hs t ht => topics_apart hservices s (List.mem_of_mem_filter hs) t (List.mem_of_mem_filter ht))
    (fun _ _ _ h => absurd h List.not_mem_nil) ((services_apart hservices).filter _) hstate
  rw [List.append_nil, sizedServices_filter] at hfinal
  rw [Options.forTopic, hfinal.exact, settingsFor, exactSettings, exactSettings, topicSettings_filter]
  cases (topicSettings (ipcTopics project) name).or (serviceSettings (sizedServices project) name) with
  | none =>
    rw [hfinal.defaultTopic]
    exact hfinal.under name
  | some settings => rfl

/-! ## Two processes -/

/-- Both declare the name as an ipc topic, or as a topic of an ipc service that both declare. -/
def SharedTopic (a b : ProjectConfig) (topic : Name) : Prop :=
  ((∃ own ∈ a.topics, own.transport = .ipc ∧ own.name = topic) ∧ ∃ own ∈ b.topics, own.transport = .ipc ∧ own.name = topic) ∨
    ∃ service ∈ a.services, ∃ service' ∈ b.services, service.transport = .ipc ∧ service'.transport = .ipc ∧
      service.name = service'.name ∧
      (topic ∈ wireTopics service ∨ ∃ client : UInt64, topic = replies service ++ hexDigits 16 client.toNat)

/-- The same segment, with the same ring. -/
def AgreeOn (a b : Options) (topic : Name) : Prop :=
  a.domainId = b.domainId ∧ (a.forTopic topic).slotPayloadSize = (b.forTopic topic).slotPayloadSize ∧
    (a.forTopic topic).slotCount = (b.forTopic topic).slotCount

/-- Each ring size has the same nearest setting. -/
def SameRing (a b : ProjectConfig) (topic : Name) : Prop :=
  settingIn (settingsFor a topic) "slot_payload_size" 65536 = settingIn (settingsFor b topic) "slot_payload_size" 65536 ∧
    settingIn (settingsFor a topic) "slot_count" 16 = settingIn (settingsFor b topic) "slot_count" 16

theorem load_sameByName {deployment : Deployment} {file : ProjectFile} (h : load deployment file = .ok project) :
    SameByName project.topics := by
  intro topic htopic other hother hname
  rw [load_topic_parameters h topic htopic, load_topic_parameters h other hother, hname]

/-- A topic that the deployment sizes has the same ring in every process. -/
theorem sized_topic_same_ring {deployment : Deployment} {file file' : ProjectFile} {a b : ProjectConfig}
    (ha : load deployment file = .ok a) (hb : load deployment file' = .ok b) {topic topic' : TopicConfig}
    (hmem : topic ∈ a.topics) (hmem' : topic' ∈ b.topics) (hipc : topic.transport = .ipc)
    (hipc' : topic'.transport = .ipc) (hname : topic'.name = topic.name) (hsized : Sized topic.transportParameters) :
    SameRing a b topic.name := by
  have hfound : ∀ {project : ProjectConfig} {file : ProjectFile} {own : TopicConfig}, load deployment file = .ok project →
      own ∈ project.topics → own.transport = .ipc → own.name = topic.name →
      settingsFor project topic.name = [topic.transportParameters] := by
    intro project file own hproject hown hownIpc hownName
    have hparameters : ∀ t ∈ project.topics, t.name = topic.name → t.transportParameters = topic.transportParameters := by
      intro t ht htName
      rw [load_topic_parameters hproject t ht, load_topic_parameters ha topic hmem, htName]
    unfold settingsFor exactSettings topicSettings
    cases hfind : (ipcTopics project).find? fun t => Sized t.transportParameters && t.name = topic.name with
    | none =>
      refine absurd ?_ (List.find?_eq_none.mp hfind own (List.mem_filter.mpr ⟨hown, by simpa using hownIpc⟩))
      simpa [hownName, hparameters own hown hownName] using hsized
    | some first =>
      have hmatch := List.find?_some hfind
      have hfirst : first.name = topic.name := by simpa using (Bool.and_eq_true_iff.mp hmatch).2
      rw [Option.map_some, Option.some_or, Option.getD_some,
        hparameters first (List.mem_of_mem_filter (List.mem_of_find?_eq_some hfind)) hfirst]
  rw [SameRing, hfound ha hmem hipc rfl, hfound hb hmem' hipc' hname]
  exact ⟨rfl, rfl⟩

/-- Two processes of one deployment agree on what they share if and only if the first domain set in
    each is the same, and the nearest setting of each ring size is. -/
theorem processes_agree_iff (deployment : Deployment) (file file' : ProjectFile) {a b : ProjectConfig}
    (ha : load deployment file = .ok a) (hb : load deployment file' = .ok b) {options options' : Options}
    (hoptions : optionsFromProject a {} = .ok options) (hoptions' : optionsFromProject b {} = .ok options') :
    (∀ topic, SharedTopic a b topic → AgreeOn options options' topic) ↔
      ∀ topic, SharedTopic a b topic → domainOf a = domainOf b ∧ SameRing a b topic := by
  obtain ⟨hdomain, hring⟩ := optionsFromProject_eq (load_eq_ok.mp ha).2 (load_sameByName ha) hoptions
  obtain ⟨hdomain', hring'⟩ := optionsFromProject_eq (load_eq_ok.mp hb).2 (load_sameByName hb) hoptions'
  refine forall_congr' fun topic => imp_congr_right fun _ => ?_
  rw [AgreeOn, hdomain, hdomain', hring, hring']
  exact Iff.rfl

def logTopic : TopicConfig :=
  { id := text "log", name := text "lookup/reply/log", transport := .ipc, messageType := text "Entry" }

def lookupService : ServiceConfig :=
  { id := text "lookup", name := text "lookup", transport := .ipc, requestType := text "Key", replyType := text "Value" }

def fourSlots : ParameterMap := SortedMap.empty.insert (text "slot_count") (text "4")

def logAndLookup : ProjectFile where
  project := { topics := [logTopic], services := [lookupService] }
  topics := by simp [logTopic]
  services := by simp [lookupService]

def logOnly : ProjectFile where
  project := { topics := [logTopic] }
  topics := by simp [logTopic]
  services := by simp

/-- The options that a process has for the topic: its domain and its ring. -/
def onLog (options : Options) : Nat × TopicOptions := (options.domainId, options.forTopic logTopic.name)

theorem exists_options {project : ProjectConfig} {domain : Nat} {ring : TopicOptions}
    (h : (optionsFromProject project {}).map onLog = .ok (domain, ring)) :
    ∃ options, optionsFromProject project {} = .ok options ∧ onLog options = (domain, ring) := by
  cases hoptions : optionsFromProject project {} with
  | error status =>
    rw [hoptions] at h
    cases h
  | ok options =>
    rw [hoptions] at h
    cases h
    exact ⟨options, rfl, rfl⟩

/-- The deployment sizes the service, and only one of the two processes that share the topic declares it. -/
theorem a_reply_topic_of_another_service :
    ∃ a b options options',
      load { services := [(text "lookup", { parameters := .ok fourSlots })] } logAndLookup = .ok a ∧
      load { services := [(text "lookup", { parameters := .ok fourSlots })] } logOnly = .ok b ∧
      optionsFromProject a {} = .ok options ∧ optionsFromProject b {} = .ok options' ∧
      SharedTopic a b logTopic.name ∧ ¬ AgreeOn options options' logTopic.name := by
  let a : ProjectConfig :=
    { topics := [logTopic], services := [{ lookupService with transportParameters := fourSlots }] }
  let b : ProjectConfig := { topics := [logTopic] }
  obtain ⟨options, hoptions, hring⟩ : ∃ options, optionsFromProject a {} = .ok options ∧ onLog options = (0, ⟨65536, 4⟩) :=
    exists_options (by decide +kernel)
  obtain ⟨options', hoptions', hring'⟩ :
      ∃ options, optionsFromProject b {} = .ok options ∧ onLog options = (0, ⟨65536, 16⟩) :=
    exists_options (by decide +kernel)
  refine ⟨a, b, options, options', load_eq_ok.mpr ⟨?_, by decide +kernel⟩, load_eq_ok.mpr ⟨rfl, by decide +kernel⟩,
    hoptions, hoptions', .inl ⟨⟨logTopic, .head _, rfl, rfl⟩, logTopic, .head _, rfl, rfl⟩, ?_⟩
  · simp [applyDeployment, logAndLookup, placeNamed, ServiceConfig.place, TopicConfig.place, setParameters_empty, bind,
      Except.bind, pure, Except.pure, lookupService, logTopic, a]
  · intro h
    obtain ⟨-, -, hslots⟩ := h
    rw [(Prod.mk.inj hring).2, (Prod.mk.inj hring').2] at hslots
    exact absurd hslots (by decide)

/-- The deployment sizes the topic itself. -/
theorem a_sized_topic_is_shared :
    ∃ a b options options', load { topics := [(logTopic.name, { parameters := .ok fourSlots })] } logAndLookup = .ok a ∧
      load { topics := [(logTopic.name, { parameters := .ok fourSlots })] } logOnly = .ok b ∧
      optionsFromProject a {} = .ok options ∧ optionsFromProject b {} = .ok options' ∧
      ∀ topic, SharedTopic a b topic → AgreeOn options options' topic := by
  let sized : TopicConfig := { logTopic with transportParameters := fourSlots }
  let a : ProjectConfig := { topics := [sized], services := [lookupService] }
  let b : ProjectConfig := { topics := [sized] }
  obtain ⟨options, hoptions, -⟩ : ∃ options, optionsFromProject a {} = .ok options ∧ onLog options = (0, ⟨65536, 4⟩) :=
    exists_options (by decide +kernel)
  obtain ⟨options', hoptions', -⟩ : ∃ options, optionsFromProject b {} = .ok options ∧ onLog options = (0, ⟨65536, 4⟩) :=
    exists_options (by decide +kernel)
  have ha : load { topics := [(logTopic.name, { parameters := .ok fourSlots })] } logAndLookup = .ok a := by
    refine load_eq_ok.mpr ⟨?_, by decide +kernel⟩
    simp [applyDeployment, logAndLookup, placeNamed, ServiceConfig.place, TopicConfig.place, setParameters_empty, bind,
      Except.bind, pure, Except.pure, lookupService, logTopic, a, sized]
  have hb : load { topics := [(logTopic.name, { parameters := .ok fourSlots })] } logOnly = .ok b := by
    refine load_eq_ok.mpr ⟨?_, by decide +kernel⟩
    simp [applyDeployment, logOnly, placeNamed, TopicConfig.place, setParameters_empty, bind, Except.bind, pure,
      Except.pure, logTopic, b, sized]
  refine ⟨a, b, options, options', ha, hb, hoptions, hoptions', ?_⟩
  refine (processes_agree_iff _ _ _ ha hb hoptions hoptions').mpr fun topic hshared => ?_
  rcases hshared with ⟨⟨own, hown, -, rfl⟩, -⟩ | ⟨_, -, service, hservice, -⟩
  · cases List.mem_singleton.mp hown
    exact ⟨by decide +kernel, sized_topic_same_ring ha hb (.head _) (.head _) rfl rfl rfl (by decide +kernel)⟩
  · cases hservice

end PuppetMaster.Shm
