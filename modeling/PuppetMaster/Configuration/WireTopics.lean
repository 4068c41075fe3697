/-
  PuppetMaster.Configuration.WireTopics — the topic names a valid project puts on the wire.

  A service uses its request topic, its presence topic and one reply topic for each client
  id (`UsesTopic`). `ValidateServices` compares three names of each service with the
  declared topics and with each other; the reply topics of clients are not among them.

  - `owners_of_validate`: every declared topic and every checked name has one owner.
  - `replyEndpointFor_eq`, `services_use_different_topics`: every client has its reply topic,
    and no service uses a topic of another one.
  - `wire_topics_are_separate_iff`: so the names in use collide exactly when a declared topic
    is named like a client's reply topic (`NamedLikeReply`).
-/

import PuppetMaster.Configuration.Checked

namespace PuppetMaster.Configuration

open PuppetMaster.Core PuppetMaster.Lib PuppetMaster.Scheduler PuppetMaster.Service

variable {project : ProjectConfig} {service service' : ServiceConfig} {name : Name}

/-! ## Topics in use -/

/-- The service of the project has `name` on the wire, for itself or for some client. -/
def UsesTopic (service : ServiceConfig) (name : Name) : Prop :=
  ∃ spec endpoints, service.toServiceSpec = .ok spec ∧ endpointsFor spec = .ok endpoints
    ∧ (name = endpoints.request.topic.name ∨ name = endpoints.presence.topic.name
      ∨ ∃ clientId reply, replyEndpointFor spec clientId = .ok reply ∧ name = reply.topic.name)

/-- No two owners share a topic, no two clients share a reply topic, and every client has one. -/
structure TopicsSeparate (project : ProjectConfig) : Prop where
  topics : ∀ service ∈ project.services, ∀ name, UsesTopic service name →
    ∀ topic ∈ project.topics, topic.name ≠ name
  services : ∀ (i j : Nat) service service', i ≠ j → project.services[i]? = some service →
    project.services[j]? = some service' → ∀ name, UsesTopic service name → ¬ UsesTopic service' name
  clients : ∀ service ∈ project.services, ∀ spec, service.toServiceSpec = .ok spec → ∀ id id' reply reply',
    replyEndpointFor spec id = .ok reply → replyEndpointFor spec id' = .ok reply' →
      reply.topic.name = reply'.topic.name → id = id'
  replies : ∀ service ∈ project.services, ∃ spec, service.toServiceSpec = .ok spec
    ∧ ∀ id, ∃ reply, replyEndpointFor spec id = .ok reply

/-- `name` is the service's, then `/reply/`, then sixteen lowercase hexadecimal digits. -/
def NamedLikeReply (service : ServiceConfig) (name : Name) : Prop :=
  ∃ digits : Bytes, digits.length = 16 ∧ (∀ digit ∈ digits, isHexDigit digit = true)
    ∧ name = service.name ++ text "/reply/" ++ digits

/-! ## Owners -/

theorem topicNames_ok {topics : List TopicConfig} {wireNames : WireNames}
    (h : ∀ n owner, ownerOf wireNames n = some owner → ∃ id, owner = text "topic " ++ id) :
    (∀ n owner, ownerOf (topicNames topics wireNames) n = some owner → ∃ id, owner = text "topic " ++ id)
      ∧ (∀ n owner, ownerOf wireNames n = some owner → ownerOf (topicNames topics wireNames) n = some owner)
      ∧ ∀ topic ∈ topics, ∃ owner, ownerOf (topicNames topics wireNames) topic.name = some owner := by
  induction topics generalizing wireNames with
  | nil => exact ⟨h, fun _ _ h => h, fun _ h => absurd h List.not_mem_nil⟩
  | cons topic topics ih =>
    rw [topicNames]
    split
    · next hnone =>
      have hkeep : ∀ n owner, ownerOf wireNames n = some owner →
          ownerOf (wireNames ++ [(topic.name, text "topic " ++ topic.id)]) n = some owner := by
        intro n owner howner
        unfold ownerOf at howner ⊢
        obtain ⟨entry, hentry, rfl⟩ := Option.map_eq_some_iff.mp howner
        rw [List.find?_append, hentry]
        rfl
      have hown : ownerOf (wireNames ++ [(topic.name, text "topic " ++ topic.id)]) topic.name =
          some (text "topic " ++ topic.id) := by
        simp only [ownerOf, List.find?_append, hnone]
        simp
      have hshape : ∀ n owner, ownerOf (wireNames ++ [(topic.name, text "topic " ++ topic.id)]) n = some owner →
          ∃ id, owner = text "topic " ++ id := by
        intro n owner howner
        by_cases hn : topic.name = n
        · subst hn
          exact ⟨topic.id, Option.some.inj (howner.symm.trans hown)⟩
        · refine h n owner ?_
          unfold ownerOf at howner ⊢
          rw [List.find?_append] at howner
          simpa [hn] using howner
      obtain ⟨hall, hstay, howners⟩ := ih hshape
      refine ⟨hall, fun n owner howner => hstay n owner (hkeep n owner howner), fun t ht => ?_⟩
      rcases List.mem_cons.mp ht with rfl | ht
      · exact ⟨_, hstay _ _ hown⟩
      · exact howners t ht
    · next entry hfound =>
      obtain ⟨hall, hstay, howners⟩ := ih h
      refine ⟨hall, hstay, fun t ht => ?_⟩
      rcases List.mem_cons.mp ht with rfl | ht
      · exact ⟨entry.2, hstay _ _ (by rw [ownerOf, hfound]; rfl)⟩
      · exact howners t ht

theorem topic_ne_service (id id' : Bytes) : text "topic " ++ id ≠ text "service " ++ id' := by
  have htopic : text "topic " = 116 :: text "opic " := by decide +kernel
  have hservice : text "service " = 115 :: text "ervice " := by decide +kernel
  intro h
  rw [htopic, hservice] at h
  exact absurd (List.cons.inj h).1 (by decide)

/-- Every declared topic is owned by a topic, and every service owns the names that are checked. -/
theorem owners_of_validate (h : validateServices project = .ok ()) :
    ∃ wireNames, (∀ topic ∈ project.topics, ∃ id, ownerOf wireNames topic.name = some (text "topic " ++ id))
      ∧ ∀ service ∈ project.services, ∃ spec endpoints, Owns wireNames service spec endpoints := by
  obtain ⟨-, -, final, hkeep, hall⟩ := validateServiceList_ok h
  have hnone : ∀ n owner, ownerOf [] n = some owner → ∃ id, owner = text "topic " ++ id := by
    intro n owner howner
    cases howner
  obtain ⟨hshape, -, howners⟩ := topicNames_ok hnone
  refine ⟨final, fun topic htopic => ?_, hall⟩
  obtain ⟨owner, howner⟩ := howners topic htopic
  obtain ⟨id, rfl⟩ := hshape _ _ howner
  exact ⟨id, hkeep _ _ howner⟩

/-! ## Reply topics -/

theorem validateName_isOk {kind : String} {value : Bytes} :
    (validateName kind value).isOk = true ↔
      value ≠ [] ∧ value.length ≤ kMaxNameLength ∧ ∀ byte ∈ value, 0x20 < byte ∧ byte ≠ 0x7f := by
  unfold validateName
  constructor
  · intro h
    split at h
    · cases h
    · next hempty =>
      split at h
      · cases h
      · next hlong =>
        split at h
        · cases h
        · next hany =>
          refine ⟨by simpa using hempty, by omega, fun byte hbyte => ?_⟩
          have hbad : ¬ (byte ≤ 0x20 ∨ byte = 0x7f) := by
            intro hbad
            refine hany (List.any_eq_true.mpr ⟨byte, hbyte, ?_⟩)
            simpa using hbad
          exact ⟨UInt8.not_le.mp fun hle => hbad (.inl hle), fun he => hbad (.inr he)⟩
  · intro h
    obtain ⟨hempty, hlong, hbytes⟩ := h
    rw [if_neg (by simpa using hempty), if_neg (by omega), if_neg]
    · rfl
    · intro hany
      obtain ⟨byte, hbyte, hbad⟩ := List.any_eq_true.mp hany
      obtain ⟨hlow, hdel⟩ := hbytes byte hbyte
      simp only [Bool.or_eq_true, decide_eq_true_eq, beq_iff_eq] at hbad
      rcases hbad with hbad | hbad
      · exact UInt8.not_le.mpr hlow hbad
      · exact hdel hbad

theorem hexDigit_printable (byte : UInt8) (h : isHexDigit byte = true) : 0x20 < byte ∧ byte ≠ 0x7f := by
  obtain ⟨n, hn, rfl⟩ := exists_hexDigit byte h
  have hall : ∀ n < 16, 0x20 < hexDigit n ∧ hexDigit n ≠ 0x7f := by decide
  exact hall n hn

theorem hex16_length (clientId : UInt64) : (hex16 clientId).length = 16 := length_hexDigits _ _

theorem hex16_inj {id id' : UInt64} (h : hex16 id = hex16 id') : id = id' := by
  have hlt : ∀ id : UInt64, id.toNat < 16 ^ 16 := fun id => id.toNat_lt
  exact UInt64.toNat_inj.mp (hexDigits_inj (hlt id) (hlt id') h)

theorem exists_hex16 {digits : Bytes} (hlen : digits.length = 16) (hhex : ∀ digit ∈ digits, isHexDigit digit = true) :
    ∃ id, hex16 id = digits := by
  obtain ⟨n, hn, rfl⟩ := exists_hexDigits hlen hhex
  refine ⟨UInt64.ofNat n, ?_⟩
  rw [hex16, UInt64.toNat_ofNat_of_lt' hn]

/-- The words of the wire names, and the reply name that is checked, with its sixteen digits. -/
theorem wireText : text "/" ++ text "request" = text "/request" ∧ text "/" ++ text "presence" = text "/presence"
    ∧ text "/" ++ (text "reply" ++ text "/") = text "/reply/"
    ∧ text "/" ++ text "reply/0000000000000000" = text "/reply/" ++ text "0000000000000000"
    ∧ (text "0000000000000000").length = 16
    ∧ ∀ word ∈ [text "/request", text "/presence"], word.length ≤ 16 ∧ 0x2f ∈ word := by decide +kernel

/-- The reply topic of a client, from the names that are checked. -/
theorem replyEndpointFor_eq {spec : ServiceDeclaration} {endpoints : ServiceEndpoints}
    (h : endpointsFor spec = .ok endpoints) (clientId : UInt64) :
    ∃ reply, replyEndpointFor spec clientId = .ok reply
      ∧ reply.topic.name = spec.name ++ text "/reply/" ++ hex16 clientId := by
  have hnames := endpointsFor_names h
  obtain ⟨-, -, hslashes, hchecked, hzeros, -⟩ := wireText
  have hname : endpoints.reply.topic.name ++ text "/" ++ hex16 clientId = spec.name ++ text "/reply/" ++ hex16 clientId := by
    rw [hnames.reply, ← hslashes]
    simp only [List.append_assoc]
  have hvalid : (validateName "topic name" (spec.name ++ text "/reply/" ++ hex16 clientId)).isOk = true := by
    -- as long as the per-client name that was checked, and like it up to the digits
    have hper := hnames.perClient
    rw [List.append_assoc, hchecked, ← List.append_assoc, validateName_isOk] at hper
    obtain ⟨-, hlen, hbytes⟩ := hper
    rw [validateName_isOk]
    refine ⟨?_, ?_, fun byte hbyte => ?_⟩
    · intro hnil
      have := congrArg List.length hnil
      rw [List.length_append, hex16_length] at this
      cases this
    · rw [List.length_append, hzeros] at hlen
      rwa [List.length_append, hex16_length]
    · rcases List.mem_append.mp hbyte with hbyte | hbyte
      · exact hbytes byte (List.mem_append_left _ hbyte)
      · exact hexDigit_printable byte (isHexDigit_hexDigits byte hbyte)
  refine ⟨{ endpoints.reply with topic := { endpoints.reply.topic with
    name := spec.name ++ text "/reply/" ++ hex16 clientId } }, ?_, rfl⟩
  unfold replyEndpointFor replyEndpoint
  rw [bind_eq_ok]
  refine ⟨endpoints, h, ?_⟩
  rw [bind_eq_ok]
  exact ⟨_, createName_eq_ok.mpr ⟨hname ▸ hvalid, hname⟩, rfl⟩

theorem reply_name {spec : ServiceDeclaration} {endpoints : ServiceEndpoints} {clientId : UInt64}
    {reply : EndpointConfig} (h : endpointsFor spec = .ok endpoints) (hreply : replyEndpointFor spec clientId = .ok reply) :
    reply.topic.name = spec.name ++ text "/reply/" ++ hex16 clientId := by
  obtain ⟨reply', hreply', hname⟩ := replyEndpointFor_eq h clientId
  cases hreply.symm.trans hreply'
  exact hname

/-- A name that ends in sixteen digits does not end in a shorter text with a slash. -/
theorem digits_ne_word {a b digits word : Bytes} (hdigits : ∀ digit ∈ digits, isHexDigit digit = true)
    (hlen : word.length ≤ digits.length) (hslash : 0x2f ∈ word) : a ++ digits ≠ b ++ word := by
  intro h
  have hsuffix : word <:+ digits :=
    List.suffix_of_suffix_length_le ⟨b, rfl⟩ (h ▸ List.suffix_append a digits) hlen
  exact absurd (hdigits _ (hsuffix.subset hslash)) (by decide)

/-! ## What a service uses -/

/-- A topic in use is one of the checked names, or named like a reply. -/
theorem usesTopic_cases {wireNames : WireNames} {spec : ServiceDeclaration} {endpoints : ServiceEndpoints}
    (hown : Owns wireNames service spec endpoints) (h : UsesTopic service name) :
    ownerOf wireNames name = some (text "service " ++ service.id)
        ∧ (name = service.name ++ text "/request" ∨ name = service.name ++ text "/presence")
      ∨ ∃ clientId, name = service.name ++ text "/reply/" ++ hex16 clientId := by
  obtain ⟨spec', endpoints', hspec, hendpoints, h⟩ := h
  cases hspec.symm.trans hown.built
  cases hendpoints.symm.trans hown.resolved
  have hnames := endpointsFor_names hown.resolved
  have hname := toServiceSpec_name hown.built
  obtain ⟨hrequest, hpresence, -⟩ := wireText
  rcases h with rfl | rfl | ⟨clientId, reply, hreply, rfl⟩
  · exact .inl ⟨hown.request, .inl (by rw [hnames.request, hname, List.append_assoc, hrequest])⟩
  · exact .inl ⟨hown.presence, .inr (by rw [hnames.presence, hname, List.append_assoc, hpresence])⟩
  · exact .inr ⟨clientId, by rw [reply_name hown.resolved hreply, hname]⟩

/-- No reply topic is another service's request or presence topic. -/
theorem reply_ne_word (clientId : UInt64)
    (h : name = service'.name ++ text "/request" ∨ name = service'.name ++ text "/presence") :
    service.name ++ text "/reply/" ++ hex16 clientId ≠ name := by
  have hword : ∀ word ∈ [text "/request", text "/presence"],
      service.name ++ text "/reply/" ++ hex16 clientId ≠ service'.name ++ word := by
    intro word hmem
    obtain ⟨hlen, hslash⟩ := wireText.2.2.2.2.2 word hmem
    exact digits_ne_word isHexDigit_hexDigits (by rw [hex16_length]; exact hlen) hslash
  rcases h with rfl | rfl
  · exact hword _ List.mem_cons_self
  · exact hword _ (List.mem_cons_of_mem _ List.mem_cons_self)

theorem services_use_different_topics (h : validateServices project = .ok ()) (hmem : service ∈ project.services)
    (hmem' : service' ∈ project.services) (hne : service ≠ service') (huse : UsesTopic service name) :
    ¬ UsesTopic service' name := by
  intro huse'
  obtain ⟨wireNames, -, hall⟩ := owners_of_validate h
  obtain ⟨spec, endpoints, hown⟩ := hall service hmem
  obtain ⟨spec', endpoints', hown'⟩ := hall service' hmem'
  rcases usesTopic_cases hown huse with ⟨howner, hword⟩ | ⟨id, hid⟩
  · rcases usesTopic_cases hown' huse' with ⟨howner', -⟩ | ⟨id', hid'⟩
    · obtain ⟨hnodup, -⟩ := validateServiceList_ok h
      have hids := List.append_cancel_left (Option.some.inj (howner.symm.trans howner'))
      exact hne (List.inj_on_of_nodup_map hnodup hmem hmem' hids)
    · exact reply_ne_word id' hword hid'.symm
  · rcases usesTopic_cases hown' huse' with ⟨-, hword'⟩ | ⟨id', hid'⟩
    · exact reply_ne_word id hword' hid.symm
    · have hsame := hid.symm.trans hid'
      obtain ⟨hfront, -⟩ := List.append_inj' hsame (by rw [hex16_length, hex16_length])
      exact hne (service_of_name h hmem hmem' (List.append_cancel_right hfront))

theorem wire_topics_are_separate_iff (h : project.validate = .ok ()) :
    TopicsSeparate project ↔
      ∀ topic ∈ project.topics, ∀ service ∈ project.services, ¬ NamedLikeReply service topic.name := by
  have hservices : validateServices project = .ok () := by
    unfold ProjectConfig.validate at h
    simp only [then_eq_ok] at h
    exact h.2.2.2.2.2.2.1
  obtain ⟨wireNames, htopics, hall⟩ := owners_of_validate hservices
  constructor
  · intro hseparate topic htopic service hservice h
    obtain ⟨digits, hlen, hhex, hname⟩ := h
    obtain ⟨spec, endpoints, hown⟩ := hall service hservice
    obtain ⟨id, rfl⟩ := exists_hex16 hlen hhex
    obtain ⟨reply, hreply, hreplyName⟩ := replyEndpointFor_eq hown.resolved id
    rw [toServiceSpec_name hown.built] at hreplyName
    exact hseparate.topics service hservice _
      ⟨spec, endpoints, hown.built, hown.resolved, .inr (.inr ⟨id, reply, hreply, rfl⟩)⟩ topic htopic
      (hname.trans hreplyName.symm)
  · intro hnone
    refine ⟨?_, ?_, ?_, ?_⟩
    · rintro service hservice name huse topic htopic rfl
      obtain ⟨spec, endpoints, hown⟩ := hall service hservice
      rcases usesTopic_cases hown huse with ⟨howner, -⟩ | ⟨id, hid⟩
      · obtain ⟨topicId, htopicOwner⟩ := htopics topic htopic
        exact topic_ne_service _ _ (Option.some.inj (htopicOwner.symm.trans howner))
      · exact hnone topic htopic service hservice
          ⟨hex16 id, hex16_length id, isHexDigit_hexDigits, hid⟩
    · intro i j service service' hij hi hj name huse
      have hmem := List.mem_of_getElem? hi
      have hmem' := List.mem_of_getElem? hj
      refine services_use_different_topics hservices hmem hmem' ?_ huse
      rintro rfl
      obtain ⟨hnodup, -⟩ := validateServiceList_ok hservices
      obtain ⟨hlt, -⟩ := List.getElem?_eq_some_iff.mp hi
      exact hij ((List.getElem?_inj hlt hnodup.of_map).mp (hi.trans hj.symm))
    · intro service hservice spec hspec id id' reply reply' hreply hreply' hname
      obtain ⟨spec', endpoints, hown⟩ := hall service hservice
      cases hspec.symm.trans hown.built
      rw [reply_name hown.resolved hreply, reply_name hown.resolved hreply'] at hname
      exact hex16_inj (List.append_cancel_left hname)
    · intro service hservice
      obtain ⟨spec, endpoints, hown⟩ := hall service hservice
      refine ⟨spec, hown.built, fun id => ?_⟩
      obtain ⟨reply, hreply, -⟩ := replyEndpointFor_eq hown.resolved id
      exact ⟨reply, hreply⟩

def mapProject (topic : String) : ProjectConfig where
  topics := [{ id := text "status", name := text topic, messageType := text "map.Status" }]
  services :=
    [{ id := text "query", name := text "/map/query", requestType := text "map.Query", replyType := text "map.Answer" },
     { id := text "nested", name := text "/map/query/reply", requestType := text "map.Query",
       replyType := text "map.Answer" }]

/-- A service named after another one's reply topic, and a topic beside the clients' topics. -/
theorem nested_names_are_separate :
    (mapProject "/map/query/reply/status").validate = .ok () ∧ TopicsSeparate (mapProject "/map/query/reply/status") := by
  have hvalid : (mapProject "/map/query/reply/status").validate = .ok () := by decide +kernel
  have hlengths : ∀ topic ∈ (mapProject "/map/query/reply/status").topics,
      ∀ service ∈ (mapProject "/map/query/reply/status").services,
        topic.name.length < service.name.length + (text "/reply/").length + 16 := by decide +kernel
  refine ⟨hvalid, (wire_topics_are_separate_iff hvalid).mpr ?_⟩
  intro topic htopic service hservice h
  obtain ⟨digits, hlen, -, hname⟩ := h
  have hshort := hlengths topic htopic service hservice
  rw [hname, List.length_append, List.length_append, hlen] at hshort
  omega

/-- The topic is valid, and it is the reply topic of client 161. -/
theorem a_declared_topic_is_a_reply_topic :
    (mapProject "/map/query/reply/00000000000000a1").validate = .ok ()
      ∧ ¬ TopicsSeparate (mapProject "/map/query/reply/00000000000000a1") := by
  have hvalid : (mapProject "/map/query/reply/00000000000000a1").validate = .ok () := by decide +kernel
  refine ⟨hvalid, fun hseparate => ?_⟩
  have hservices : validateServices (mapProject "/map/query/reply/00000000000000a1") = .ok () := by decide +kernel
  obtain ⟨wireNames, -, hall⟩ := owners_of_validate hservices
  obtain ⟨spec, endpoints, hown⟩ := hall _ List.mem_cons_self
  obtain ⟨reply, hreply, hname⟩ := replyEndpointFor_eq hown.resolved 161
  have hsame : spec.name ++ text "/reply/" ++ hex16 161 = text "/map/query/reply/00000000000000a1" := by
    rw [toServiceSpec_name hown.built]
    decide +kernel
  exact hseparate.topics _ List.mem_cons_self _
    ⟨spec, endpoints, hown.built, hown.resolved, .inr (.inr ⟨161, reply, hreply, rfl⟩)⟩ _ List.mem_cons_self
    (hname.trans hsame).symm

end PuppetMaster.Configuration
