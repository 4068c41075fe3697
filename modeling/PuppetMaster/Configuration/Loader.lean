/-
  PuppetMaster.Configuration.Loader — a project file and all it imports (json_loader.cpp).

  `importInto` goes through the imports of a file depth-first. It keeps the files of the
  current chain, to refuse a cycle, and all files it has read, to read none twice. The
  topics and services of a file come behind those of the files it imports. One map has
  where each id was first declared, the services under a prefix of the key.

  Recursion takes a number, how deep it may still go; a run that it is too small for is
  `unfinished`. The file system and the parser of JSON texts are parameters.
-/

import PuppetMaster.Configuration.Json
import PuppetMaster.Core.Path

namespace PuppetMaster.Configuration.Loader

open PuppetMaster.Core PuppetMaster.Core.Path PuppetMaster.Lib

/-! ## Files -/

/-- A file stream: not open, bad after reading, or read to its end. -/
inductive Reading where
  | closed
  | bad
  | contents (bytes : Bytes)

/-- `std::filesystem` and the JSON parser; an error is what the exception says. -/
structure FileSystem where
  fileExists : Bytes → Except Bytes Bool
  isRegularFile : Bytes → Except Bytes Bool
  weaklyCanonical : Bytes → Except Bytes Bytes
  read : Bytes → Reading
  parse : Bytes → Except Bytes Json

structure JsonLoadOptions where
  searchPaths : List Bytes := []

/-! ## Errors -/

inductive Declared where
  | topic
  | service
  deriving DecidableEq, Repr

def Declared.label : Declared → Bytes
  | .topic => text "topic"
  | .service => text "service"

inductive LoadError where
  | unfinished
  /-- `UnreadableFile`, or an error of the file system. -/
  | unavailable (message : Bytes)
  | invalid (message : Bytes)
  | importCycle (file resolved : Bytes)
  | alreadyDeclared (kind : Declared) (id file first : Bytes)

/-- `Fail`. -/
def failed (file message : Bytes) : Bytes := if file = [] then message else file ++ text ": " ++ message

def LoadError.message : LoadError → Bytes
  | .unfinished => []
  | .unavailable message => message
  | .invalid message => message
  | .importCycle file resolved => failed file (text "import cycle through " ++ resolved)
  | .alreadyDeclared kind id file first =>
    failed file (kind.label ++ text " id " ++ id ++ text " is already declared"
      ++ if first = [] ∨ first = file then [] else text " in " ++ first)

def LoadError.toStatus : LoadError → Status
  | .unavailable message => .error .unavailable message
  | error => .error .invalidArgument error.message

/-- Errors from imported files already name their file; the others start with a path into the document. -/
def LoadError.inFile (path : Bytes) : LoadError → LoadError
  | .unavailable message => .unavailable message
  | error => if error.message.head? = some 0x24 then .invalid (failed path error.message) else error

abbrev Loaded (α : Type) := Except LoadError α

def thrown {α : Type} (rename : Bytes → Bytes) : Thrown α → Loaded α
  | .ok value => .ok value
  | .error message => .error (.invalid (rename message))

def fileSystem {α : Type} : Except Bytes α → Loaded α
  | .ok value => .ok value
  | .error message => .error (.unavailable message)

def readJsonFile (files : FileSystem) (path : Bytes) : Loaded Json :=
  match files.read path with
  | .closed => .error (.unavailable (text "cannot open configuration file: " ++ path))
  | .bad => .error (.unavailable (text "cannot read configuration file: " ++ path))
  | .contents bytes => thrown (failed path) (files.parse bytes)

/-! ## Imports -/

def firstRegularFile (files : FileSystem) : List Bytes → Loaded (Option Bytes)
  | [] => .ok none
  | candidate :: candidates => do
    if ← fileSystem (files.isRegularFile candidate) then return some candidate
    else firstRegularFile files candidates

def resolve (files : FileSystem) (options : JsonLoadOptions) (name file : Bytes) : Loaded Bytes :=
  if isAbsolute name then do
    if ← fileSystem (files.fileExists name) then return name
    else .error (.invalid (failed file (text "import not found: " ++ name)))
  else do
    let candidates := join (parentPath file) name :: options.searchPaths.map fun directory => join directory name
    match ← firstRegularFile files candidates with
    | some candidate => return candidate
    | none =>
      let searched := candidates.foldl (fun searched candidate =>
        searched ++ (if searched = [] then [] else text ", ") ++ parentPath candidate) []
      .error (.invalid (failed file (text "import not found: " ++ name ++ text " (searched " ++ searched
        ++ text "; add directories with PUPPETMASTER_CONFIG_PATH or --config-path)")))

structure Loading where
  /-- The canonical paths of the files that were read. -/
  loaded : List Bytes
  project : ProjectConfig
  /-- The file of the first declaration of each id. -/
  origins : SortedMap Bytes Bytes

/-- Service ids share `origins` with topics under a prefix. -/
def originKey : Declared → Bytes → Bytes
  | .topic, id => id
  | .service, id => text "service:" ++ id

def declareId (kind : Declared) (id file : Bytes) (origins : SortedMap Bytes Bytes) : Loaded (SortedMap Bytes Bytes) :=
  match origins.find? (originKey kind id) with
  | some first => .error (.alreadyDeclared kind id file first)
  | none => .ok (origins.insert (originKey kind id) file)

def appendTopic (file : Bytes) (state : Loading) (entry : Json × Nat) : Loaded Loading := do
  let topic ← thrown (failed file) (decodeTopic entry.1 (elementPath (text "$") "topics" entry.2))
  let origins ← declareId .topic topic.id file state.origins
  return { state with origins, project := { state.project with topics := state.project.topics ++ [topic] } }

def appendTopics (root : Json) (file : Bytes) (state : Loading) : Loaded Loading := do
  let values ← thrown id (root.elements "topics" (text "$"))
  values.zipIdx.foldlM (appendTopic file) state

def appendService (file : Bytes) (state : Loading) (entry : Json × Nat) : Loaded Loading := do
  let service ← thrown (failed file) (decodeService entry.1 (elementPath (text "$") "services" entry.2))
  let origins ← declareId .service service.id file state.origins
  return { state with origins, project := { state.project with services := state.project.services ++ [service] } }

def appendServices (root : Json) (file : Bytes) (state : Loading) : Loaded Loading := do
  let values ← thrown id (root.elements "services" (text "$"))
  values.zipIdx.foldlM (appendService file) state

/-- An imported file may only declare topics and services. -/
def checkImported (imported : Json) (resolved : Bytes) : Loaded Unit :=
  thrown (fun message => failed resolved (message ++ text " (an imported file may only declare topics and services)"))
    (imported.checkObject (text "$") ["imports", "topics", "services"])

def appendDeclarations (root : Json) (file : Bytes) (state : Loading) : Loaded Loading := do
  let state ← appendTopics root file state
  appendServices root file state

/-- One name of `imports`; `descend` goes through the imports of the file it names. -/
def importName (files : FileSystem) (options : JsonLoadOptions)
    (descend : List Bytes → Json → Bytes → Loading → Loaded Loading) (chain : List Bytes) (file : Bytes)
    (state : Loading) (name : Bytes) : Loaded Loading := do
  let resolved ← resolve files options name file
  let key ← fileSystem (files.weaklyCanonical resolved)
  if key ∈ chain then .error (.importCycle file resolved)
  -- reached through another import already
  else if key ∈ state.loaded then return state
  else
    let imported ← readJsonFile files resolved
    checkImported imported resolved
    let state ← descend (chain ++ [key]) imported resolved { state with loaded := key :: state.loaded }
    appendDeclarations imported resolved state

def importInto (files : FileSystem) (options : JsonLoadOptions) :
    Nat → List Bytes → Json → Bytes → Loading → Loaded Loading
  | 0, _, _, _, _ => .error .unfinished
  | depth + 1, chain, root, file, state => do
    let names ← thrown id (root.readStrings "imports" [] (text "$"))
    names.foldlM (importName files options (importInto files options depth) chain file) state

/-! ## Loading -/

def decodeComponents (root : Json) (project : ProjectConfig) : Thrown (List ComponentConfig) := do
  let entries ← root.elements "components" (text "$")
  entries.zipIdx.mapM fun entry => decodeComponent entry.1 (elementPath (text "$") "components" entry.2) project

/-- `resolver` is none for text without a file, which cannot have imports. -/
def decodeImports (resolver : Option (Json → Bytes → Loading → Loaded Loading)) (root : Json) (file : Bytes) (state : Loading) :
    Loaded Loading :=
  if (root.find? "imports").isSome then
    match resolver with
    | some resolver => resolver root file state
    | none => .error (.invalid (text "$.imports needs a configuration file to resolve against; use LoadJsonConfig"))
  else .ok state

def decode (resolver : Option (Json → Bytes → Loading → Loaded Loading)) (loaded : List Bytes) (root : Json) (file : Bytes) :
    Loaded ProjectConfig := do
  thrown id (root.checkObject (text "$") ["imports", "runtime", "scheduler", "topics", "services", "components"])
  let project ← thrown id (decodeProjectSettings root {})
  let state ← decodeImports resolver root file ⟨loaded, project, .empty⟩
  let state ← appendDeclarations root file state
  let components ← thrown id (decodeComponents root state.project)
  return { state.project with components }

/-- A root file and its canonical path (`ReadJsonFile`, `Enter`). -/
def readRoot (files : FileSystem) (path : Bytes) : Loaded (Json × Bytes) := do
  let root ← readJsonFile files path
  let key ← fileSystem (files.weaklyCanonical path)
  return (root, key)

def decodeRoot (files : FileSystem) (options : JsonLoadOptions) (depth : Nat) (path : Bytes) (root : Json × Bytes) :
    Loaded ProjectConfig :=
  decode (some (importInto files options depth [root.2])) [root.2] root.1 path

/-- The project of a file before a deployment is applied and before it is validated. -/
def decodeFile (files : FileSystem) (options : JsonLoadOptions) (depth : Nat) (path : Bytes) : Loaded ProjectConfig := do
  let root ← readRoot files path
  decodeRoot files options depth path root

def validated (project : ProjectConfig) (file : Bytes) : Result ProjectConfig := do
  within (if file = [] then [] else file ++ text ": ") project.validate
  return project

/-- `LoadJsonConfig` without a deployment; none when the run is unfinished. -/
def loadJsonConfig (files : FileSystem) (options : JsonLoadOptions) (depth : Nat) (path : Bytes) :
    Option (Result ProjectConfig) :=
  match readRoot files path with
  | .error error => some (.error error.toStatus)
  | .ok root =>
    match decodeRoot files options depth path root with
    | .ok project => some (validated project path)
    | .error .unfinished => none
    | .error error => some (.error (error.inFile path).toStatus)

def parseJsonConfig (parse : Bytes → Except Bytes Json) (json : Bytes) : Result ProjectConfig :=
  match thrown id (parse json) >>= fun root => decode none [] root [] with
  | .ok project => validated project []
  | .error error => .error error.toStatus

end PuppetMaster.Configuration.Loader
