/-
  PuppetMaster.Configuration.ImportOrder — which files a project is made of, and in which order.

  - `loads_as_searched_iff`: a load ends, fails with an import cycle exactly when one is
    reachable, and else has the declarations of each reachable file once, in depth-first
    post-order with the root last; this is so as long as no topic of a file that is read to
    its end has the id of a service there behind `service:`.
  - `a_topic_takes_the_key_of_a_service`: such a topic stops a load in which no id is
    declared twice.
-/

import PuppetMaster.Configuration.Imports

namespace PuppetMaster.Configuration.Loader

open PuppetMaster.Core PuppetMaster.Lib PuppetMaster.Lib.DepthFirst Relation

variable {files : FileSystem} {options : JsonLoadOptions} {root : Bytes}

namespace FileSet

/-- No topic id and no service id is declared twice, in whatever order the files are listed. -/
structure DeclaredOnce (set : FileSet files options root) : Prop where
  topics : ∀ order : List Bytes, order.Nodup → (∀ key ∈ order, key ∈ set.keys) →
    ((order.flatMap set.topics).map TopicConfig.id).Nodup
  services : ∀ order : List Bytes, order.Nodup → (∀ key ∈ order, key ∈ set.keys) →
    ((order.flatMap set.services).map ServiceConfig.id).Nodup

/-- The components of the root are decodable over the topics of all files. -/
def ComponentsDecodable (set : FileSet files options root) : Prop :=
  ∀ paths, Walk set.imports [set.rootKey] paths → ∀ project : ProjectConfig,
    project.topics = (firsts paths).flatMap set.topics →
    ∃ components, decodeComponents (set.content set.rootKey) project = .ok components

/-- The files of a project: each reachable one once, in the post-order of first visit, the root last. -/
structure PostOrder (set : FileSet files options root) (order : List Bytes) : Prop where
  once : order.Nodup
  reachable : ∀ key, key ∈ order ↔ ReflTransGen (Edge set.imports) set.rootKey key
  last : order.getLast? = some set.rootKey
  walk : ∃ paths, Walk set.imports [set.rootKey] paths ∧ order = firsts paths

/-- What a load of the root should give, from some depth on. -/
def LoadsAsSearched (set : FileSet files options root) : Prop :=
  ∃ least result, (∀ depth, least ≤ depth → decodeFile files options depth root = result) ∧
    result ≠ .error .unfinished ∧
    ((∃ file resolved, result = .error (.importCycle file resolved)) ↔ CycleReachable set.imports set.rootKey) ∧
    (¬ CycleReachable set.imports set.rootKey → ∃ project order, result = .ok project ∧ set.PostOrder order ∧
      project.topics = order.flatMap set.topics ∧ project.services = order.flatMap set.services)

variable {set : FileSet files options root} {outcome : Outcome Bytes}

theorem mem_declarations_topic {order : List Bytes} {id : Bytes} :
    ((.topic, id) : Declaration) ∈ set.declarations order ↔ ∃ topic ∈ order.flatMap set.topics, topic.id = id := by
  simp [declarations, declarationsOf]
  tauto

theorem mem_declarations_service {order : List Bytes} {id : Bytes} :
    ((.service, id) : Declaration) ∈ set.declarations order ↔ ∃ service ∈ order.flatMap set.services, service.id = id := by
  simp [declarations, declarationsOf]
  tauto

theorem postOrder_of_search {visited : Visited Bytes} (h : Search set.imports set.rootKey (.done visited)) :
    set.PostOrder visited.order := by
  obtain ⟨paths, hwalk, horder⟩ := search_done h
  refine ⟨search_order_nodup h, fun key => ?_, search_last h, paths, hwalk, horder⟩
  rw [horder, mem_firsts, hwalk.mem_iff]
  simp

/-- The topics of files, then their services, are the declarations of the files. -/
theorem declarations_perm (set : FileSet files options root) (order : List Bytes) :
    ((order.flatMap set.topics).map (fun topic => (Declared.topic, topic.id)) ++
      (order.flatMap set.services).map fun service => (Declared.service, service.id)).Perm (set.declarations order) := by
  rw [List.map_flatMap, List.map_flatMap]
  exact List.flatMap_append_perm order _ _

theorem declarations_nodup_iff {order : List Bytes} : (set.declarations order).Nodup ↔
    ((order.flatMap set.topics).map TopicConfig.id).Nodup ∧ ((order.flatMap set.services).map ServiceConfig.id).Nodup := by
  have htopics : ((order.flatMap set.topics).map fun topic => (Declared.topic, topic.id)) =
      ((order.flatMap set.topics).map TopicConfig.id).map (Prod.mk Declared.topic) := List.map_map.symm
  have hservices : ((order.flatMap set.services).map fun service => (Declared.service, service.id)) =
      ((order.flatMap set.services).map ServiceConfig.id).map (Prod.mk Declared.service) := List.map_map.symm
  rw [← (declarations_perm set order).nodup_iff, List.nodup_append, htopics, hservices,
    List.nodup_map_iff (Prod.mk_right_injective _), List.nodup_map_iff (Prod.mk_right_injective _)]
  refine ⟨fun h => ⟨h.1, h.2.1⟩, fun h => ⟨h.1, h.2, fun a ha b hb heq => ?_⟩⟩
  obtain ⟨topic, -, rfl⟩ := List.mem_map.mp ha
  obtain ⟨service, -, rfl⟩ := List.mem_map.mp hb
  cases congrArg Prod.fst heq

theorem DeclaredOnce.nodup (h : set.DeclaredOnce) {order : List Bytes} (hnodup : order.Nodup)
    (hkeys : ∀ key ∈ order, key ∈ set.keys) : (set.declarations order).Nodup :=
  declarations_nodup_iff.mpr ⟨h.topics order hnodup hkeys, h.services order hnodup hkeys⟩

theorem search_mem_keys (h : Search set.imports set.rootKey outcome) : ∀ key ∈ outcome.order, key ∈ set.keys :=
  search_order_subset h set.closed set.root_mem

/-- Without a clash the load stops where the search does. -/
theorem loads_as_searched (hcomponents : set.ComponentsDecodable) (hsearch : Search set.imports set.rootKey outcome)
    (hkeys : ((set.declarations outcome.order).map Declaration.key).Nodup) : set.LoadsAsSearched := by
  obtain ⟨least, result, hresult, hrun⟩ := decodeFile_simulates set hsearch
  have hreaches : set.Reaches outcome result := by
    rcases hresult with ⟨-, hreaches⟩ | ⟨declaration, _, _, hrefused, -⟩
    · exact hreaches
    · exact absurd hkeys hrefused.not_nodup
  have hcycle := search_cycle_iff hsearch
  cases outcome with
  | cycle closing order =>
    obtain ⟨file, resolved, rfl⟩ := hreaches
    have hreachable := hcycle.mp ⟨closing, order, rfl⟩
    refine ⟨least, _, hrun, fun h => (by cases h), ?_, fun hacyclic => absurd hreachable hacyclic⟩
    exact ⟨fun _ => hreachable, fun _ => ⟨file, resolved, rfl⟩⟩
  | done visited =>
    obtain ⟨state, rfl, hat⟩ := hreaches
    have hacyclic : ¬ CycleReachable set.imports set.rootKey := fun h => by
      obtain ⟨_, _, hdone⟩ := hcycle.mpr h
      cases hdone
    have horder := postOrder_of_search hsearch
    obtain ⟨paths, hwalk, hpaths⟩ := horder.walk
    obtain ⟨components, hdecoded⟩ := hcomponents paths hwalk state.project (hpaths ▸ hat.topics)
    have hfinish : finish (set.content set.rootKey) state = .ok { state.project with components } := by
      rw [finish, hdecoded]
      rfl
    refine ⟨least, .ok { state.project with components }, fun depth hdepth => (hrun depth hdepth).trans hfinish,
      fun h => (by cases h), ?_, fun _ => ⟨_, visited.order, rfl, horder, hat.topics, hat.services⟩⟩
    constructor
    · rintro ⟨_, _, h⟩
      cases h
    · exact fun h => absurd h hacyclic

end FileSet

/-- The search of the imports ends, and the load is as it should be exactly when no topic of the files that the search
has left stands under the key of a service of theirs. -/
theorem loads_as_searched_iff (set : FileSet files options root) (honce : set.DeclaredOnce)
    (hcomponents : set.ComponentsDecodable) : (∃ outcome, Search set.imports set.rootKey outcome) ∧
      ∀ outcome, Search set.imports set.rootKey outcome → (set.LoadsAsSearched ↔
        ∀ topic ∈ outcome.order.flatMap set.topics, ∀ service ∈ outcome.order.flatMap set.services,
          topic.id ≠ text "service:" ++ service.id) := by
  refine ⟨exists_search set.closed set.root_mem, fun outcome hsearch => ?_⟩
  have hnodup := honce.nodup (search_order_nodup hsearch) (FileSet.search_mem_keys hsearch)
  constructor
  · intro hloads topic htopic service hservice hid
    have hclash : Clashing (set.declarations outcome.order) :=
      ⟨service.id, FileSet.mem_declarations_topic.mpr ⟨topic, htopic, hid⟩,
        FileSet.mem_declarations_service.mpr ⟨service, hservice, rfl⟩⟩
    obtain ⟨least, result, hresult, hrun⟩ := decodeFile_simulates set hsearch
    obtain ⟨least', loaded, hloaded, -, hcycle, hproject⟩ := hloads
    have heq : loaded = (result >>= finish (set.content set.rootKey)) :=
      (hloaded _ (Nat.le_max_right least least')).symm.trans (hrun _ (Nat.le_max_left least least'))
    rcases hresult with ⟨hkeys, -⟩ | ⟨declaration, file, first, -, rfl⟩
    · exact (nodup_keys_iff.mp hkeys).2 hclash
    · -- the clash is reported, so the load neither finds a cycle nor succeeds
      by_cases hreachable : CycleReachable set.imports set.rootKey
      · obtain ⟨_, _, hfailed⟩ := hcycle.mpr hreachable
        cases heq.symm.trans hfailed
      · obtain ⟨_, _, hok, -⟩ := hproject hreachable
        cases heq.symm.trans hok
  · intro hclash
    refine FileSet.loads_as_searched hcomponents hsearch (nodup_keys_iff.mpr ⟨hnodup, fun h => ?_⟩)
    obtain ⟨id, htopic, hservice⟩ := h
    obtain ⟨topic, hmem, hid⟩ := FileSet.mem_declarations_topic.mp htopic
    obtain ⟨service, hmem', heq⟩ := FileSet.mem_declarations_service.mp hservice
    exact hclash topic hmem service hmem' (heq ▸ hid)

/-! ## Files that import each other -/

/-- A file system with these files; the text of a file is not looked at. -/
def filesOf (paths : List Bytes) (content : Bytes → Json) : FileSystem where
  fileExists other := .ok (other ∈ paths)
  isRegularFile other := .ok (other ∈ paths)
  weaklyCanonical other := .ok other
  read other := if other ∈ paths then .contents other else .closed
  parse path := .ok (content path)

def topicDocument (id : String) : Json :=
  .object [(text "id", .string (text id)), (text "message_type", .string (text "m")), (text "name", .string (text "/t"))]

def serviceDocument (id : String) : Json :=
  .object [(text "id", .string (text id)), (text "name", .string (text "/s")), (text "reply_type", .string (text "b")),
    (text "request_type", .string (text "a"))]

def document (imports : List Bytes) (topics services : List String) : Json :=
  .object [(text "imports", .array (imports.map .string)), (text "services", .array (services.map serviceDocument)),
    (text "topics", .array (topics.map topicDocument))]

def topicOf (id : String) : TopicConfig := { id := text id, name := text "/t", messageType := text "m" }

def serviceOf (id : String) : ServiceConfig :=
  { id := text id, name := text "/s", requestType := text "a", replyType := text "b" }

theorem topics_decoded (topics : List String) (start : Nat) :
    List.Forall₂ (fun entry topic => decodeTopic entry.1 (elementPath (text "$") "topics" entry.2) = .ok topic)
      ((topics.map topicDocument).zipIdx start) (topics.map topicOf) := by
  induction topics generalizing start with
  | nil => exact .nil
  | cons id rest ih => exact .cons (by with_unfolding_all rfl) (ih (start + 1))

theorem services_decoded (services : List String) (start : Nat) :
    List.Forall₂ (fun entry service => decodeService entry.1 (elementPath (text "$") "services" entry.2) = .ok service)
      ((services.map serviceDocument).zipIdx start) (services.map serviceOf) := by
  induction services generalizing start with
  | nil => exact .nil
  | cons id rest ih => exact .cons (by with_unfolding_all rfl) (ih (start + 1))

theorem declares_document (imports : List Bytes) (topics services : List String) :
    Declares (document imports topics services) (topics.map topicOf) (services.map serviceOf) where
  topics := ⟨topics.map topicDocument, by with_unfolding_all rfl, topics_decoded topics 0⟩
  services := ⟨services.map serviceDocument, by with_unfolding_all rfl, services_decoded services 0⟩

theorem readStrings_document (imports : List Bytes) (topics services : List String) :
    (document imports topics services).readStrings "imports" [] (text "$") = .ok imports := by
  have hread : (document imports topics services).readStrings "imports" [] (text "$") =
      Json.asStrings (text "$" ++ text "." ++ text "imports") (.array (imports.map .string)) := by with_unfolding_all rfl
  rw [hread, Json.asStrings, Json.strings?_array]

section Files

variable {paths : List Bytes} {imports : Bytes → List Bytes} {topics services : Bytes → List String} {root : Bytes}

/-- The documents of the files. -/
abbrev documents (imports : Bytes → List Bytes) (topics services : Bytes → List String) (path : Bytes) : Json :=
  document (imports path) (topics path) (services path)

theorem readJsonFile_filesOf {content : Bytes → Json} {path : Bytes} (h : path ∈ paths) :
    readJsonFile (filesOf paths content) path = .ok (content path) := by
  simp [readJsonFile, filesOf, thrown, h]

theorem resolve_filesOf {content : Bytes → Json} {path : Bytes} (h : path ∈ paths) (habsolute : Path.isAbsolute path = true)
    (file : Bytes) : resolve (filesOf paths content) {} path file = .ok path := by
  simp [resolve, habsolute, filesOf, fileSystem, h]
  rfl

/-- Files whose imports are absolute paths of each other lead nowhere else. -/
theorem reached_filesOf (hroot : root ∈ paths) (habsolute : ∀ path ∈ paths, Path.isAbsolute path = true)
    (hclosed : ∀ path ∈ paths, ∀ target ∈ imports path, target ∈ paths) {file : Bytes}
    (h : Reached (filesOf paths (documents imports topics services)) {} root file) : file ∈ paths := by
  induction h with
  | root => exact hroot
  | @imported file name resolved content names _ hread himports hmem hfound ih =>
    rw [readJsonFile_filesOf ih] at hread
    cases hread
    rw [readStrings_document] at himports
    cases himports
    have hname := hclosed file ih name hmem
    rw [resolve_filesOf hname (habsolute name hname)] at hfound
    cases hfound
    exact hname

def filesSet (paths : List Bytes) (imports : Bytes → List Bytes) (topics services : Bytes → List String) (hroot : root ∈ paths)
    (habsolute : ∀ path ∈ paths, Path.isAbsolute path = true)
    (hclosed : ∀ path ∈ paths, ∀ target ∈ imports path, target ∈ paths) :
    FileSet (filesOf paths (documents imports topics services)) {} root where
  keys := paths.toFinset
  rootKey := root
  content := documents imports topics services
  imports := imports
  topics path := (topics path).map topicOf
  services path := (services path).map serviceOf
  root_key := rfl
  root_mem := List.mem_toFinset.mpr hroot
  closed path hpath target htarget := List.mem_toFinset.mpr (hclosed path (List.mem_toFinset.mp hpath) target htarget)
  readable path key h := by
    have hpath := reached_filesOf hroot habsolute hclosed h.reached
    have hkey : path = key := Except.ok.inj h.canonical
    rw [readJsonFile_filesOf hpath, hkey]
  found path key h := by
    have hpath := reached_filesOf hroot habsolute hclosed h.reached
    have hkey : path = key := Except.ok.inj h.canonical
    refine ⟨imports path, by rw [← hkey]; exact readStrings_document _ _ _, ?_⟩
    rw [← hkey]
    refine List.forall₂_same.mpr fun name hname => ⟨name, ?_, rfl⟩
    have hmem := hclosed path hpath name hname
    exact resolve_filesOf hmem (habsolute name hmem) path
  decodable _ _ := declares_document _ _ _
  interface _ _ _ := by with_unfolding_all rfl
  project := by with_unfolding_all rfl
  settings := ⟨{}, by with_unfolding_all rfl⟩

variable {hroot : root ∈ paths} {habsolute : ∀ path ∈ paths, Path.isAbsolute path = true}
  {hclosed : ∀ path ∈ paths, ∀ target ∈ imports path, target ∈ paths}

theorem componentsDecodable_files : (filesSet paths imports topics services hroot habsolute hclosed).ComponentsDecodable :=
  fun _ _ _ _ => ⟨[], by with_unfolding_all rfl⟩

/-- Ids that differ between the files differ in every order of them. -/
theorem nodup_files {α : Type} (make : String → α) (id : α → Bytes) (hid : ∀ name, id (make name) = text name)
    {names : Bytes → List String} (hown : ∀ a ∈ paths, ((names a).map text).Nodup)
    (happart : ∀ a ∈ paths, ∀ b ∈ paths, a ≠ b → ∀ name ∈ (names a).map text, name ∉ (names b).map text)
    {order : List Bytes} (horder : order.Nodup) (hkeys : ∀ key ∈ order, key ∈ paths.toFinset) :
    ((order.flatMap fun path => (names path).map make).map id).Nodup := by
  have hnames : ((order.flatMap fun path => (names path).map make).map id) = order.flatMap fun path => (names path).map text := by
    rw [List.map_flatMap]
    refine List.flatMap_congr fun path _ => ?_
    rw [List.map_map]
    exact List.map_congr_left fun name _ => hid name
  have hmem : ∀ key ∈ order, key ∈ paths := fun key hkey => List.mem_toFinset.mp (hkeys key hkey)
  rw [hnames]
  refine List.nodup_flatMap.mpr ⟨fun a ha => hown a (hmem a ha), horder.pairwise_of_forall_ne fun a ha b hb hne => ?_⟩
  exact fun name hname hother => happart a (hmem a ha) b (hmem b hb) hne name hname hother

theorem declaredOnce_files (htopics : ∀ a ∈ paths, ((topics a).map text).Nodup)
    (happart : ∀ a ∈ paths, ∀ b ∈ paths, a ≠ b → ∀ id ∈ (topics a).map text, id ∉ (topics b).map text)
    (hservices : ∀ a ∈ paths, ((services a).map text).Nodup)
    (happart' : ∀ a ∈ paths, ∀ b ∈ paths, a ≠ b → ∀ id ∈ (services a).map text, id ∉ (services b).map text) :
    (filesSet paths imports topics services hroot habsolute hclosed).DeclaredOnce where
  topics _ horder hkeys := nodup_files topicOf TopicConfig.id (fun _ => rfl) htopics happart horder hkeys
  services _ horder hkeys := nodup_files serviceOf ServiceConfig.id (fun _ => rfl) hservices happart' horder hkeys

end Files

/-! ## A file and a diamond -/

def projectPath : Bytes := text "/p.json"

/-- A project with one topic and one service, which imports itself `copies` times. -/
def pairSet (topicId serviceId : String) (copies : Nat) :
    FileSet
      (filesOf [projectPath] (documents (fun _ => .replicate copies projectPath) (fun _ => [topicId]) fun _ => [serviceId]))
      {} projectPath :=
  filesSet [projectPath] (fun _ => .replicate copies projectPath) (fun _ => [topicId]) (fun _ => [serviceId])
    List.mem_cons_self (by decide +kernel) fun _ _ target htarget => by
      rw [List.eq_of_mem_replicate htarget]
      exact List.mem_cons_self

variable {topicId serviceId : String} {copies : Nat}

theorem declaredOnce_pair : (pairSet topicId serviceId copies).DeclaredOnce := by
  have hsame : ∀ a ∈ [projectPath], ∀ b ∈ [projectPath], a = b := fun a ha b hb =>
    (List.mem_singleton.mp ha).trans (List.mem_singleton.mp hb).symm
  exact declaredOnce_files (fun _ _ => List.nodup_singleton _) (fun a ha b hb hne => absurd (hsame a ha b hb) hne)
    (fun _ _ => List.nodup_singleton _) fun a ha b hb hne => absurd (hsame a ha b hb) hne

def leftPath : Bytes := text "/a.json"

def rightPath : Bytes := text "/b.json"

def basePath : Bytes := text "/c.json"

def diamondImports (path : Bytes) : List Bytes :=
  if path = projectPath then [leftPath, rightPath] else if path = basePath then [] else [basePath]

def diamondTopics (leftId : String) (path : Bytes) : List String :=
  if path = leftPath then [leftId] else if path = basePath then ["t"] else []

def diamondServices (path : Bytes) : List String := if path = basePath then ["s"] else []

/-- A project that imports two files, which import one with a topic `t` and a service; one of the two has a topic as well. -/
def diamondSet (leftId : String) :
    FileSet
      (filesOf [projectPath, leftPath, rightPath, basePath] (documents diamondImports (diamondTopics leftId) diamondServices))
      {} projectPath :=
  filesSet [projectPath, leftPath, rightPath, basePath] diamondImports (diamondTopics leftId) diamondServices
    List.mem_cons_self (by decide +kernel) (by decide +kernel)

theorem declaredOnce_diamond : (diamondSet "u").DeclaredOnce :=
  declaredOnce_files (by decide +kernel) (by decide +kernel) (by decide +kernel) (by decide +kernel)

/-- A diamond, and a project that imports itself twice. -/
theorem loads_as_searched_diamond : (diamondSet "u").LoadsAsSearched ∧ (pairSet "t" "s" 2).LoadsAsSearched := by
  constructor
  · obtain ⟨⟨outcome, hsearch⟩, hiff⟩ := loads_as_searched_iff (diamondSet "u") declaredOnce_diamond componentsDecodable_files
    refine (hiff outcome hsearch).mpr fun topic htopic service hservice => ?_
    obtain ⟨key, hkey, htopic⟩ := List.mem_flatMap.mp htopic
    obtain ⟨key', hkey', hservice⟩ := List.mem_flatMap.mp hservice
    have happart : ∀ a ∈ [projectPath, leftPath, rightPath, basePath], ∀ b ∈ [projectPath, leftPath, rightPath, basePath],
        ∀ topic ∈ diamondTopics "u" a, ∀ service ∈ diamondServices b, text topic ≠ text "service:" ++ text service := by
      decide +kernel
    obtain ⟨id, hid, rfl⟩ := List.mem_map.mp htopic
    obtain ⟨id', hid', rfl⟩ := List.mem_map.mp hservice
    exact happart key (List.mem_toFinset.mp (FileSet.search_mem_keys hsearch key hkey)) key'
      (List.mem_toFinset.mp (FileSet.search_mem_keys hsearch key' hkey')) id hid id' hid'
  · exact ((loads_as_searched_iff _ declaredOnce_pair componentsDecodable_files).2 (.cycle projectPath [])
      ⟨_, .cycle (List.mem_singleton_self _), rfl⟩).mpr fun _ h => absurd h List.not_mem_nil

/-- A project with a topic `service:x` and a service `x`. -/
theorem decodeFile_clash (depth : Nat) :
    decodeFile (filesOf [projectPath] (documents (fun _ => []) (fun _ => ["service:x"]) fun _ => ["x"])) {} (depth + 1)
        projectPath = .error (.alreadyDeclared .service (text "x") projectPath projectPath) := by
  have hread : readRoot (filesOf [projectPath] (documents (fun _ => []) (fun _ => ["service:x"]) fun _ => ["x"])) projectPath =
      .ok (document [] ["service:x"] ["x"], projectPath) := by
    rw [readRoot, readJsonFile_filesOf List.mem_cons_self]
    rfl
  rw [decodeFile, hread]
  with_unfolding_all rfl

theorem a_topic_takes_the_key_of_a_service : (pairSet "service:x" "x" 0).DeclaredOnce ∧
    (pairSet "service:x" "x" 0).ComponentsDecodable ∧ ¬ (pairSet "service:x" "x" 0).LoadsAsSearched := by
  refine ⟨declaredOnce_pair, componentsDecodable_files, fun h => ?_⟩
  obtain ⟨least, result, hresult, -, hcycle, hproject⟩ := h
  have hfailed := (hresult (least + 1) (Nat.le_succ _)).symm.trans (decodeFile_clash least)
  by_cases hreachable : CycleReachable (pairSet "service:x" "x" 0).imports (pairSet "service:x" "x" 0).rootKey
  · obtain ⟨_, _, h⟩ := hcycle.mpr hreachable
    cases hfailed.symm.trans h
  · obtain ⟨_, _, h, -⟩ := hproject hreachable
    cases hfailed.symm.trans h

end PuppetMaster.Configuration.Loader
