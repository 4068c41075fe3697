/-
  PuppetMaster.Configuration.Imports — what a project file and its imports load as.

  A `FileSet` is a finite set of files that are found, readable and decodable, with the
  imports between them. The loader goes through it as the depth-first search does
  (`importNames_simulates`): it stops at a cycle where the search does, and else it has the
  declarations of the files in the order in which the search leaves them. It stops before
  that at the first declaration whose key another one has (`Refused`).
-/

import PuppetMaster.Configuration.Loader
import PuppetMaster.Lib.DepthFirst

namespace PuppetMaster.Configuration.Loader

open PuppetMaster.Core PuppetMaster.Lib PuppetMaster.Lib.DepthFirst Relation

/-! ## Declarations -/

/-- A topic or a service, by its id. -/
abbrev Declaration := Declared × Bytes

def Declaration.key (declaration : Declaration) : Bytes := originKey declaration.1 declaration.2

def declarationsOf (topics : List TopicConfig) (services : List ServiceConfig) : List Declaration :=
  topics.map (fun topic => (.topic, topic.id)) ++ services.map fun service => (.service, service.id)

/-- The first declaration whose key another one has. -/
def Refused (declarations : List Declaration) (declaration : Declaration) : Prop :=
  ∃ before behind, declarations = before ++ declaration :: behind ∧ (before.map Declaration.key).Nodup ∧
    declaration.key ∈ before.map Declaration.key

theorem Refused.of_shorter {declarations more : List Declaration} {declaration : Declaration}
    (h : Refused declarations declaration) (hshorter : declarations <+: more) : Refused more declaration := by
  obtain ⟨before, behind, rfl, hnodup, hmem⟩ := h
  obtain ⟨rest, rfl⟩ := hshorter
  exact ⟨before, behind ++ rest, by rw [List.append_assoc, List.cons_append], hnodup, hmem⟩

theorem Refused.not_nodup {declarations : List Declaration} {declaration : Declaration}
    (h : Refused declarations declaration) : ¬ (declarations.map Declaration.key).Nodup := by
  obtain ⟨before, behind, rfl, -, hmem⟩ := h
  rw [List.map_append, List.map_cons]
  intro hnodup
  exact (List.nodup_append.mp hnodup).2.2 _ hmem _ List.mem_cons_self rfl

/-- A topic is declared under the key of a service. -/
def Clashing (declarations : List Declaration) : Prop :=
  ∃ id, ((.topic, text "service:" ++ id) : Declaration) ∈ declarations ∧ ((.service, id) : Declaration) ∈ declarations

/-- Two declarations of one key are the same, or a topic and a service that clash. -/
theorem clashing_of_key_eq {declarations : List Declaration} {a b : Declaration} (ha : a ∈ declarations) (hb : b ∈ declarations)
    (hne : a ≠ b) (hkey : a.key = b.key) : Clashing declarations := by
  obtain ⟨kind, id⟩ := a
  obtain ⟨kind', id'⟩ := b
  cases kind with
  | topic =>
    cases kind' with
    | topic => exact absurd (congrArg (Prod.mk Declared.topic) hkey) hne
    | service =>
      have hid : id = text "service:" ++ id' := hkey
      exact ⟨id', hid ▸ ha, hb⟩
  | service =>
    cases kind' with
    | topic =>
      have hid : text "service:" ++ id = id' := hkey
      exact ⟨id, hid ▸ hb, ha⟩
    | service => exact absurd (congrArg (Prod.mk Declared.service) (List.append_cancel_left hkey)) hne

theorem nodup_keys_iff {declarations : List Declaration} :
    (declarations.map Declaration.key).Nodup ↔ declarations.Nodup ∧ ¬ Clashing declarations := by
  constructor
  · intro h
    refine ⟨h.of_map _, fun hclash => ?_⟩
    obtain ⟨id, htopic, hservice⟩ := hclash
    have heq := List.inj_on_of_nodup_map h htopic hservice rfl
    cases congrArg Prod.fst heq
  · rintro ⟨hnodup, hclash⟩
    refine List.Nodup.map_on (fun a ha b hb hkey => ?_) hnodup
    by_contra hne
    exact hclash (clashing_of_key_eq ha hb hne hkey)

/-- The keys that are in use are those of what has been declared, each once. -/
structure Known (declarations : List Declaration) (state : Loading) : Prop where
  nodup : (declarations.map Declaration.key).Nodup
  origins : ∀ key, (state.origins.find? key).isSome = true ↔ key ∈ declarations.map Declaration.key

/-- A run over declarations: all of them are new, or the first that is not stops it. -/
def Runs (declarations : List Declaration) (good : Loading → Prop) (result : Loaded Loading) : Prop :=
  (∃ state, result = .ok state ∧ Known declarations state ∧ good state) ∨
    ∃ declaration file first, Refused declarations declaration ∧
      result = .error (.alreadyDeclared declaration.1 declaration.2 file first)

theorem declareId_known {declarations : List Declaration} {state : Loading} (hknown : Known declarations state) (kind : Declared)
    (id file : Bytes) :
    (∃ origins, declareId kind id file state.origins = .ok origins ∧
        ∀ project, Known (declarations ++ [(kind, id)]) { state with origins, project }) ∨
      ∃ first, declareId kind id file state.origins = .error (.alreadyDeclared kind id file first) ∧
        Refused (declarations ++ [(kind, id)]) (kind, id) := by
  unfold declareId
  cases hfind : state.origins.find? (originKey kind id) with
  | some first =>
    refine .inr ⟨first, rfl, declarations, [], rfl, hknown.nodup, ?_⟩
    exact (hknown.origins _).mp (by rw [Declaration.key, hfind]; rfl)
  | none =>
    have hnew : originKey kind id ∉ declarations.map Declaration.key := by
      intro hmem
      have := (hknown.origins _).mpr hmem
      rw [hfind] at this
      cases this
    refine .inl ⟨_, rfl, fun project => ⟨?_, fun key => ?_⟩⟩
    · rw [List.map_append, List.map_singleton]
      refine List.nodup_append.mpr ⟨hknown.nodup, List.nodup_singleton _, fun a ha b hb heq => hnew ?_⟩
      rw [← show Declaration.key (kind, id) = originKey kind id from rfl, ← List.mem_singleton.mp hb, ← heq]
      exact ha
    · rw [List.map_append, List.map_singleton, List.mem_append, List.mem_singleton, ← hknown.origins key,
        SortedMap.find?_insert, Declaration.key]
      by_cases h : key = originKey kind id
      · simp [h]
      · simp [h]

/-- A run over the entries of an array, each of which is decoded and declared. -/
theorem foldlM_runs {α : Type} {declaration : α → Declaration} {add : ProjectConfig → α → ProjectConfig}
    (step : Loading → Json × Nat → Loaded Loading) (file : Bytes) {entries : List (Json × Nat)} {values : List α}
    (hstep : List.Forall₂ (fun entry value => ∀ state, step state entry =
      (declareId (declaration value).1 (declaration value).2 file state.origins >>= fun origins =>
        .ok { state with origins, project := add state.project value })) entries values)
    {before : List Declaration} {state : Loading} (hknown : Known before state) :
    Runs (before ++ values.map declaration)
      (fun after => after.loaded = state.loaded ∧ after.project = values.foldl add state.project)
      (entries.foldlM step state) := by
  induction hstep generalizing before state with
  | nil =>
    rw [List.map_nil, List.append_nil]
    exact .inl ⟨state, rfl, hknown, rfl, rfl⟩
  | @cons entry value entries values hfirst _ ih =>
    rw [List.foldlM_cons, hfirst state, List.map_cons, ← List.singleton_append, ← List.append_assoc]
    rcases declareId_known hknown (declaration value).1 (declaration value).2 file with
      ⟨origins, horigins, hnext⟩ | ⟨first, herror, hrefused⟩
    · rw [horigins]
      exact ih (hnext (add state.project value))
    · rw [herror]
      exact .inr ⟨declaration value, file, first, hrefused.of_shorter (List.prefix_append _ _), rfl⟩

theorem foldl_add_topics (topics : List TopicConfig) (project : ProjectConfig) :
    topics.foldl (fun project topic => { project with topics := project.topics ++ [topic] }) project =
      { project with topics := project.topics ++ topics } := by
  induction topics generalizing project with
  | nil => simp
  | cons topic topics ih => simp [ih]

theorem foldl_add_services (services : List ServiceConfig) (project : ProjectConfig) :
    services.foldl (fun project service => { project with services := project.services ++ [service] }) project =
      { project with services := project.services ++ services } := by
  induction services generalizing project with
  | nil => simp
  | cons service services ih => simp [ih]

/-- The topics and services of a document are decodable. -/
structure Declares (root : Json) (topics : List TopicConfig) (services : List ServiceConfig) : Prop where
  topics : ∃ values, root.elements "topics" (text "$") = .ok values ∧
    List.Forall₂ (fun entry topic => decodeTopic entry.1 (elementPath (text "$") "topics" entry.2) = .ok topic)
      values.zipIdx topics
  services : ∃ values, root.elements "services" (text "$") = .ok values ∧
    List.Forall₂ (fun entry service => decodeService entry.1 (elementPath (text "$") "services" entry.2) = .ok service)
      values.zipIdx services

theorem appendTopics_runs {root : Json} {topics : List TopicConfig} {services : List ServiceConfig}
    (h : Declares root topics services) {before : List Declaration} {state : Loading} (hknown : Known before state)
    (file : Bytes) :
    Runs (before ++ topics.map fun topic => (.topic, topic.id))
      (fun after => after.loaded = state.loaded ∧
        after.project = { state.project with topics := state.project.topics ++ topics })
      (appendTopics root file state) := by
  obtain ⟨values, hvalues, hdecode⟩ := h.topics
  rw [appendTopics, hvalues, ← foldl_add_topics]
  refine foldlM_runs (appendTopic file) file (hdecode.imp fun entry topic hentry state => ?_) hknown
  rw [appendTopic, hentry]
  rfl

theorem appendServices_runs {root : Json} {topics : List TopicConfig} {services : List ServiceConfig}
    (h : Declares root topics services) {before : List Declaration} {state : Loading} (hknown : Known before state)
    (file : Bytes) :
    Runs (before ++ services.map fun service => (.service, service.id))
      (fun after => after.loaded = state.loaded ∧
        after.project = { state.project with services := state.project.services ++ services })
      (appendServices root file state) := by
  obtain ⟨values, hvalues, hdecode⟩ := h.services
  rw [appendServices, hvalues, ← foldl_add_services]
  refine foldlM_runs (appendService file) file (hdecode.imp fun entry service hentry state => ?_) hknown
  rw [appendService, hentry]
  rfl

theorem appendDeclarations_runs {root : Json} {topics : List TopicConfig} {services : List ServiceConfig}
    (h : Declares root topics services) {before : List Declaration} {state : Loading} (hknown : Known before state)
    (file : Bytes) :
    Runs (before ++ declarationsOf topics services)
      (fun after => after.loaded = state.loaded ∧
        after.project = { state.project with topics := state.project.topics ++ topics
                                             services := state.project.services ++ services })
      (appendDeclarations root file state) := by
  rw [appendDeclarations, declarationsOf, ← List.append_assoc]
  rcases appendTopics_runs h hknown file with ⟨middle, hok, hmiddle, hloaded, hproject⟩ | ⟨declaration, file', first,
    hrefused, herror⟩
  · rw [hok]
    show Runs _ _ (appendServices root file middle)
    rw [← hloaded]
    rcases appendServices_runs h hmiddle file with ⟨after, hok', hafter, hloaded', hproject'⟩ | hstopped
    · exact .inl ⟨after, hok', hafter, hloaded', by rw [hproject', hproject]⟩
    · exact .inr hstopped
  · rw [herror]
    exact .inr ⟨declaration, file', first, hrefused.of_shorter (List.prefix_append _ _), rfl⟩

/-! ## Sets of files -/

/-- The paths that a load of `root` goes through. -/
inductive Reached (files : FileSystem) (options : JsonLoadOptions) (root : Bytes) : Bytes → Prop
  | root : Reached files options root root
  | imported {file name resolved : Bytes} {content : Json} {names : List Bytes} (reached : Reached files options root file)
      (readable : readJsonFile files file = .ok content)
      (imports : content.readStrings "imports" [] (text "$") = .ok names) (named : name ∈ names)
      (found : resolve files options name file = .ok resolved) : Reached files options root resolved

/-- A path that stands for a file: it is reached, and it leads to the file by its canonical path. -/
structure Names (files : FileSystem) (options : JsonLoadOptions) (root path key : Bytes) : Prop where
  reached : Reached files options root path
  canonical : files.weaklyCanonical path = .ok key

/-- Finitely many files by their canonical paths, with the imports between them: all found, readable and decodable. -/
structure FileSet (files : FileSystem) (options : JsonLoadOptions) (root : Bytes) where
  keys : Finset Bytes
  rootKey : Bytes
  content : Bytes → Json
  imports : Bytes → List Bytes
  topics : Bytes → List TopicConfig
  services : Bytes → List ServiceConfig
  root_key : files.weaklyCanonical root = .ok rootKey
  root_mem : rootKey ∈ keys
  closed : ∀ key ∈ keys, ∀ target ∈ imports key, target ∈ keys
  readable : ∀ path key, Names files options root path key → readJsonFile files path = .ok (content key)
  /-- The imports of a file lead to the same files, by whatever path it is read. -/
  found : ∀ path key, Names files options root path key → ∃ names,
    (content key).readStrings "imports" [] (text "$") = .ok names ∧
      List.Forall₂ (fun name target => ∃ resolved, resolve files options name path = .ok resolved ∧
        files.weaklyCanonical resolved = .ok target) names (imports key)
  decodable : ∀ key ∈ keys, Declares (content key) (topics key) (services key)
  interface : ∀ key ∈ keys, key ≠ rootKey → (content key).checkObject (text "$") ["imports", "topics", "services"] = .ok ()
  project : (content rootKey).checkObject (text "$")
    ["imports", "runtime", "scheduler", "topics", "services", "components"] = .ok ()
  settings : ∃ settings, decodeProjectSettings (content rootKey) {} = .ok settings

variable {files : FileSystem} {options : JsonLoadOptions} {root : Bytes}

namespace FileSet

variable (set : FileSet files options root)

/-- The declarations of files, in their order. -/
def declarations (order : List Bytes) : List Declaration :=
  order.flatMap fun key => declarationsOf (set.topics key) (set.services key)

theorem declarations_append (order order' : List Bytes) :
    set.declarations (order ++ order') = set.declarations order ++ set.declarations order' := List.flatMap_append

theorem declarations_single (key : Bytes) : set.declarations [key] = declarationsOf (set.topics key) (set.services key) := by
  simp [declarations]

theorem declarations_shorter {order order' : List Bytes} (h : order <+: order') :
    set.declarations order <+: set.declarations order' := by
  obtain ⟨rest, rfl⟩ := h
  rw [declarations_append]
  exact List.prefix_append _ _

/-- The loader where the search is: it has read what is loaded, and it has the declarations of what was left. -/
structure At (visited : Visited Bytes) (state : Loading) : Prop where
  known : Known (set.declarations visited.order) state
  loaded : ∀ key, key ∈ state.loaded ↔ key ∈ visited.loaded
  topics : state.project.topics = visited.order.flatMap set.topics
  services : state.project.services = visited.order.flatMap set.services

/-- How the loader stops where the search does: at its cycle, or with all that it left. -/
def Reaches (outcome : Outcome Bytes) (result : Loaded Loading) : Prop :=
  match outcome with
  | .cycle _ _ => ∃ file resolved, result = .error (.importCycle file resolved)
  | .done visited => ∃ state, result = .ok state ∧ set.At visited state

/-- A run of the loader over what the search goes through: it stops where the search does, or at a declaration
before that whose key another one has. -/
def Simulates (outcome : Outcome Bytes) (result : Loaded Loading) : Prop :=
  ((set.declarations outcome.order).map Declaration.key).Nodup ∧ set.Reaches outcome result ∨
    ∃ declaration file first, Refused (set.declarations outcome.order) declaration ∧
      result = .error (.alreadyDeclared declaration.1 declaration.2 file first)

variable {set}

theorem At.enter {visited : Visited Bytes} {state : Loading} (h : set.At visited state) (key : Bytes) :
    set.At (visited.enter key) { state with loaded := key :: state.loaded } := by
  refine ⟨⟨h.known.nodup, h.known.origins⟩, fun other => ?_, h.topics, h.services⟩
  show other ∈ key :: state.loaded ↔ other ∈ key :: visited.loaded
  rw [List.mem_cons, List.mem_cons, h.loaded other]

/-- A file is left with its own declarations behind those of its imports. -/
theorem At.leave {visited : Visited Bytes} {state : Loading} (h : set.At visited state) {key : Bytes} (hkey : key ∈ set.keys)
    (file : Bytes) : Runs (set.declarations (visited.leave key).order) (set.At (visited.leave key))
      (appendDeclarations (set.content key) file state) := by
  show Runs (set.declarations (visited.order ++ [key])) _ _
  rw [declarations_append, declarations_single]
  rcases appendDeclarations_runs (set.decodable key hkey) h.known file with ⟨after, hok, hknown, hloaded, hproject⟩ | hstopped
  · refine .inl ⟨after, hok, hknown, ?_, fun other => ?_, ?_, ?_⟩
    · show Known (set.declarations (visited.order ++ [key])) after
      rw [declarations_append, declarations_single]
      exact hknown
    · rw [hloaded]
      exact h.loaded other
    · rw [hproject, h.topics]
      simp [Visited.leave]
    · rw [hproject, h.services]
      simp [Visited.leave]
  · exact .inr hstopped

/-- The names of the imports of a file stand for the files they lead to. -/
theorem names_found {path key : Bytes} (h : Names files options root path key) :
    ∃ names, (set.content key).readStrings "imports" [] (text "$") = .ok names ∧
      List.Forall₂ (fun name target => ∃ resolved, resolve files options name path = .ok resolved ∧
        Names files options root resolved target) names (set.imports key) := by
  obtain ⟨names, hnames, hfound⟩ := set.found path key h
  have hreadable := set.readable path key h
  refine ⟨names, hnames, ?_⟩
  refine List.forall₂_iff_zip.mpr ⟨(List.forall₂_iff_zip.mp hfound).1, ?_⟩
  intro name target hmem
  obtain ⟨resolved, hresolved, hcanonical⟩ := (List.forall₂_iff_zip.mp hfound).2 hmem
  exact ⟨resolved, hresolved, .imported h.reached hreadable hnames (List.of_mem_zip hmem).1 hresolved, hcanonical⟩

end FileSet

/-! ## The loader goes through the files as the search does -/

variable {descend : List Bytes → Json → Bytes → Loading → Loaded Loading} {chain : List Bytes} {file name resolved key : Bytes}
  {state : Loading}

theorem importName_eq (hresolved : resolve files options name file = .ok resolved)
    (hkey : files.weaklyCanonical resolved = .ok key) : importName files options descend chain file state name =
      if key ∈ chain then .error (.importCycle file resolved)
      else if key ∈ state.loaded then .ok state
      else
        (do
          let imported ← readJsonFile files resolved
          checkImported imported resolved
          let state ← descend (chain ++ [key]) imported resolved { state with loaded := key :: state.loaded }
          appendDeclarations imported resolved state) := by
  rw [importName, hresolved]
  show (fileSystem (files.weaklyCanonical resolved) >>= _) = _
  rw [hkey]
  rfl

theorem importInto_eq {set : FileSet files options root} {names : List Bytes} (depth : Nat) (chain : List Bytes) (file : Bytes)
    (state : Loading) (hnames : (set.content key).readStrings "imports" [] (text "$") = .ok names) :
    importInto files options (depth + 1) chain (set.content key) file state =
      names.foldlM (importName files options (importInto files options depth) chain file) state := by
  rw [importInto, hnames]
  rfl

/-- A file that is not the root is read and checked, and its imports come before its declarations. -/
theorem importName_fresh {set : FileSet files options root} (hresolved : resolve files options name file = .ok resolved)
    (hnames : Names files options root resolved key) (hmem : key ∈ set.keys) (hroot : set.rootKey ∈ chain) (hchain : key ∉ chain)
    (hfresh : key ∉ state.loaded) : importName files options descend chain file state name =
      (descend (chain ++ [key]) (set.content key) resolved { state with loaded := key :: state.loaded } >>=
        appendDeclarations (set.content key) resolved) := by
  have hne : key ≠ set.rootKey := fun heq => hchain (heq ▸ hroot)
  rw [importName_eq hresolved hnames.canonical, if_neg hchain, if_neg hfresh, set.readable resolved key hnames]
  show (checkImported (set.content key) resolved >>= _) = _
  rw [checkImported, set.interface key hmem hne]
  rfl

theorem FileSet.Simulates.error {set : FileSet files options root} {closing : Bytes} {order : List Bytes}
    {result : Loaded Loading}
    (h : set.Simulates (.cycle closing order) result) : ∃ error, result = .error error := by
  rcases h with ⟨-, file, resolved, rfl⟩ | ⟨_, _, _, -, rfl⟩
  · exact ⟨_, rfl⟩
  · exact ⟨_, rfl⟩

theorem importNames_simulates (set : FileSet files options root) {visited : Visited Bytes} {nodes : List Bytes}
    {outcome : Outcome Bytes} (h : Visits set.imports chain visited nodes outcome) : ∃ least, ∀ file names state,
      List.Forall₂ (fun name target => ∃ resolved, resolve files options name file = .ok resolved ∧
        Names files options root resolved target) names nodes →
      (∀ node ∈ nodes, node ∈ set.keys) → set.rootKey ∈ chain → set.At visited state → ∃ result, set.Simulates outcome result ∧
        ∀ depth, least ≤ depth →
          names.foldlM (importName files options (importInto files options depth) chain file) state = result := by
  induction h with
  | nil =>
    refine ⟨0, fun file names state hnames _ _ hat => ?_⟩
    cases hnames
    exact ⟨.ok state, .inl ⟨hat.known.nodup, state, rfl, hat⟩, fun _ _ => rfl⟩
  | @cycle chain visited node nodes hchain =>
    refine ⟨0, fun file names state hnames _ _ hat => ?_⟩
    cases hnames with
    | @cons name _ names _ hfirst _ =>
      obtain ⟨resolved, hresolved, hnode⟩ := hfirst
      refine ⟨.error (.importCycle file resolved), .inl ⟨hat.known.nodup, file, resolved, rfl⟩, fun depth _ => ?_⟩
      rw [List.foldlM_cons, importName_eq hresolved hnode.canonical, if_pos hchain]
      rfl
  | @skip chain visited node nodes outcome hchain hloaded _ ih =>
    obtain ⟨least, ih⟩ := ih
    refine ⟨least, fun file names state hnames hkeys hroot hat => ?_⟩
    cases hnames with
    | @cons name _ names _ hfirst hrest =>
      obtain ⟨resolved, hresolved, hnode⟩ := hfirst
      obtain ⟨result, hresult, hrun⟩ := ih file names state hrest (fun n hn => hkeys n (List.mem_cons_of_mem _ hn)) hroot hat
      refine ⟨result, hresult, fun depth hdepth => ?_⟩
      rw [List.foldlM_cons, importName_eq hresolved hnode.canonical, if_neg hchain, if_pos ((hat.loaded node).mpr hloaded)]
      exact hrun depth hdepth
  | @stop chain visited node closing nodes order hchain hfresh _ ih =>
    obtain ⟨least, ih⟩ := ih
    refine ⟨least + 1, fun file names state hnames hkeys hroot hat => ?_⟩
    cases hnames with
    | @cons name _ names _ hfirst hrest =>
      obtain ⟨resolved, hresolved, hnode⟩ := hfirst
      obtain ⟨inside, hinside, hfound⟩ := set.names_found hnode
      have hmem := hkeys node List.mem_cons_self
      obtain ⟨result, hresult, hrun⟩ := ih resolved inside _ hfound (set.closed node hmem) (List.mem_append_left _ hroot)
        (hat.enter node)
      -- an error below is the error of the whole run
      obtain ⟨error, rfl⟩ := hresult.error
      refine ⟨.error error, hresult, fun depth hdepth => ?_⟩
      obtain ⟨depth, rfl⟩ := Nat.exists_eq_add_of_le' hdepth
      rw [List.foldlM_cons, importName_fresh hresolved hnode hmem hroot hchain (mt (hat.loaded node).mp hfresh), ← Nat.add_assoc,
        importInto_eq _ _ _ _ hinside, hrun _ (Nat.le_add_left _ _)]
      rfl
  | @step chain visited inside node nodes outcome hchain hfresh _ hrest ihInner ihRest =>
    obtain ⟨leastInner, ihInner⟩ := ihInner
    obtain ⟨leastRest, ihRest⟩ := ihRest
    refine ⟨max leastInner leastRest + 1, fun file names state hnames hkeys hroot hat => ?_⟩
    cases hnames with
    | @cons name _ names _ hfirst hnext =>
      obtain ⟨resolved, hresolved, hnode⟩ := hfirst
      obtain ⟨inside', hinside, hfound⟩ := set.names_found hnode
      have hmem := hkeys node List.mem_cons_self
      have hafter : (inside.order ++ [node]) <+: outcome.order := hrest.order_grows
      obtain ⟨result, hresult, hrun⟩ := ihInner resolved inside' _ hfound (set.closed node hmem) (List.mem_append_left _ hroot)
        (hat.enter node)
      have hname : ∀ depth, max leastInner leastRest ≤ depth →
          importName files options (importInto files options (depth + 1)) chain file state name =
            (result >>= appendDeclarations (set.content node) resolved) := by
        intro depth hdepth
        rw [importName_fresh hresolved hnode hmem hroot hchain (mt (hat.loaded node).mp hfresh), importInto_eq _ _ _ _ hinside,
          hrun _ (Nat.le_trans (Nat.le_max_left _ _) hdepth)]
      rcases hresult with ⟨-, middle, rfl, hmiddle⟩ | ⟨declaration, at', first, hrefused, rfl⟩
      · rcases hmiddle.leave hmem resolved with ⟨left, hleft, -, hat'⟩ | ⟨declaration, at', first, hrefused, herror⟩
        · obtain ⟨result', hresult', hrun'⟩ := ihRest file names left hnext (fun n hn => hkeys n (List.mem_cons_of_mem _ hn))
            hroot hat'
          refine ⟨result', hresult', fun depth hdepth => ?_⟩
          obtain ⟨depth, rfl⟩ := Nat.exists_eq_add_of_le' hdepth
          rw [List.foldlM_cons, ← Nat.add_assoc, hname _ (Nat.le_add_left _ _)]
          show (appendDeclarations (set.content node) resolved middle >>= _) = _
          rw [hleft]
          exact hrun' _ (by omega)
        · refine ⟨_, .inr ⟨declaration, at', first, hrefused.of_shorter (set.declarations_shorter hafter), rfl⟩,
            fun depth hdepth => ?_⟩
          obtain ⟨depth, rfl⟩ := Nat.exists_eq_add_of_le' hdepth
          rw [List.foldlM_cons, ← Nat.add_assoc, hname _ (Nat.le_add_left _ _)]
          show (appendDeclarations (set.content node) resolved middle >>= _) = _
          rw [herror]
          rfl
      · have hinner := (List.prefix_append inside.order [node]).trans hafter
        refine ⟨_, .inr ⟨declaration, at', first, hrefused.of_shorter (set.declarations_shorter hinner), rfl⟩,
          fun depth hdepth => ?_⟩
        obtain ⟨depth, rfl⟩ := Nat.exists_eq_add_of_le' hdepth
        rw [List.foldlM_cons, ← Nat.add_assoc, hname _ (Nat.le_add_left _ _)]
        rfl

/-! ## From the root -/

theorem settings_empty {root : Json} {settings : ProjectConfig} (h : decodeProjectSettings root {} = .ok settings) :
    settings.topics = [] ∧ settings.services = [] := by
  unfold decodeProjectSettings at h
  obtain ⟨runtimeOptions, -, h⟩ := thrown_bind h
  obtain ⟨schedulerOptions, -, h⟩ := thrown_bind h
  cases h
  exact ⟨rfl, rfl⟩

/-- What is left to do with the declarations of all files. -/
def finish (root : Json) (state : Loading) : Loaded ProjectConfig := do
  let components ← thrown id (decodeComponents root state.project)
  return { state.project with components }

/-- A document without imports is one with no names in them. -/
theorem decodeImports_eq {set : FileSet files options root} {names : List Bytes} {depth : Nat}
    (hnames : (set.content key).readStrings "imports" [] (text "$") = .ok names) :
    decodeImports (some (importInto files options (depth + 1) chain)) (set.content key) file state =
      names.foldlM (importName files options (importInto files options depth) chain file) state := by
  unfold decodeImports
  split
  · exact importInto_eq depth chain file state hnames
  · rename_i hnone
    have hempty : names = [] := by
      rw [Json.readStrings, Json.read, Option.not_isSome_iff_eq_none.mp hnone] at hnames
      cases hnames
      rfl
    rw [hempty]
    rfl

theorem decodeFile_simulates (set : FileSet files options root) {outcome : Outcome Bytes}
    (h : Search set.imports set.rootKey outcome) : ∃ least result, set.Simulates outcome result ∧
      ∀ depth, least ≤ depth → decodeFile files options depth root = (result >>= finish (set.content set.rootKey)) := by
  obtain ⟨inner, hinner, rfl⟩ := h
  obtain ⟨least, hsimulates⟩ := importNames_simulates set hinner
  have hroot : Names files options root root set.rootKey := ⟨.root, set.root_key⟩
  obtain ⟨names, hnames, hfound⟩ := set.names_found hroot
  obtain ⟨settings, hsettings⟩ := set.settings
  have hat : set.At ⟨[set.rootKey], []⟩ ⟨[set.rootKey], settings, .empty⟩ := by
    obtain ⟨htopics, hservices⟩ := settings_empty hsettings
    refine ⟨⟨List.nodup_nil, fun key => ?_⟩, fun _ => Iff.rfl, htopics, hservices⟩
    simp [FileSet.declarations, SortedMap.find?, SortedMap.empty]
  obtain ⟨result, hresult, hrun⟩ := hsimulates root names _ hfound (set.closed _ set.root_mem) (List.mem_singleton_self _) hat
  have hdecode : ∀ depth, least + 1 ≤ depth → decodeFile files options depth root =
      (result >>= appendDeclarations (set.content set.rootKey) root >>= finish (set.content set.rootKey)) := by
    intro depth hdepth
    obtain ⟨depth, rfl⟩ := Nat.exists_eq_add_of_le' hdepth
    have hread : readRoot files root = .ok (set.content set.rootKey, set.rootKey) := by
      rw [readRoot, set.readable root _ hroot, set.root_key]
      rfl
    rw [decodeFile, hread]
    show decode (some (importInto files options (depth + least + 1) [set.rootKey])) [set.rootKey]
      (set.content set.rootKey) root = _
    rw [decode, set.project, hsettings]
    show (decodeImports _ _ root ⟨[set.rootKey], settings, .empty⟩ >>= _) = _
    rw [decodeImports_eq hnames, hrun _ (Nat.le_add_left _ _), bind_assoc]
    rfl
  refine ⟨least + 1, result >>= appendDeclarations (set.content set.rootKey) root, ?_, hdecode⟩
  cases inner with
  | cycle closing order =>
    obtain ⟨error, rfl⟩ := hresult.error
    exact hresult
  | done inside =>
    rcases hresult with ⟨-, state, rfl, hstate⟩ | ⟨declaration, at', first, hrefused, rfl⟩
    · show set.Simulates (.done (inside.leave set.rootKey)) (appendDeclarations (set.content set.rootKey) root state)
      rcases hstate.leave set.root_mem root with ⟨left, hleft, hknown, hat'⟩ | hstopped
      · exact .inl ⟨hknown.nodup, left, hleft, hat'⟩
      · exact .inr hstopped
    · have hshorter : inside.order <+: (Outcome.close set.rootKey (.done inside)).order := List.prefix_append _ _
      exact .inr ⟨declaration, at', first, hrefused.of_shorter (set.declarations_shorter hshorter), rfl⟩

end PuppetMaster.Configuration.Loader
