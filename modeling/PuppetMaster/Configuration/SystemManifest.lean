/-
  PuppetMaster.Configuration.SystemManifest — `LoadSystemManifest` (system_manifest.cpp) and
  the listing of start commands (puppet_master_config.cpp).

  A string of a manifest has its variables substituted when it is read; executables, configs
  and directories are then resolved to paths. The environment, the files and the parser of
  JSON texts are parameters. A node has the fields of a supervised one, and its command.
-/

import PuppetMaster.Configuration.Json
import PuppetMaster.Configuration.Supervisor
import PuppetMaster.Core.Path

namespace PuppetMaster.Configuration.Manifest

open PuppetMaster.Core PuppetMaster.Core.Path PuppetMaster.Configuration.Supervisor

/-- What a manifest is read with; an error is what the exception says. -/
structure World where
  read : Bytes → Option Bytes
  parse : Bytes → Except Bytes Json
  absolute : Bytes → Except Bytes Bytes
  isFile : Bytes → Bool
  getenv : Bytes → Option Bytes

structure NodeManifest extends Supervisor.NodeManifest where
  executable : Bytes
  config : Bytes
  arguments : List Bytes := []

structure SystemManifest where
  name : Bytes := []
  path : Bytes
  configPaths : List Bytes := []
  binPaths : List Bytes := []
  deployment : Bytes := []
  nodes : List NodeManifest := []

/-! ## Fields -/

/-- `if (…) Fail(…);`. -/
def failIf (condition : Prop) [Decidable condition] (message : Bytes) : Thrown Unit :=
  if condition then .error message else .ok ()

theorem failIf_eq_ok {condition : Prop} [Decidable condition] {message : Bytes} :
    failIf condition message = .ok () ↔ ¬ condition := by
  unfold failIf
  split
  · next h => exact ⟨fun hok => (by cases hok), fun hnot => absurd h hnot⟩
  · next h => exact ⟨fun _ => h, fun _ => rfl⟩

/-- The text from some position on; `name` is that of a variable once its brace is open. -/
def expandFrom (getenv : Bytes → Option Bytes) (text' path : Bytes) : Bytes → Option Bytes → Thrown Bytes
  | [], none => .ok []
  | [], some _ => .error (path ++ text ": unterminated $\x7b in \"" ++ text' ++ text "\"")
  | 0x24 :: 0x7b :: rest, none => expandFrom getenv text' path rest (some [])
  | byte :: rest, none => do
    let result ← expandFrom getenv text' path rest none
    return byte :: result
  | byte :: rest, some name =>
    if byte = 0x7d then do
      failIf (name = []) (path ++ text ": empty variable name in \"" ++ text' ++ text "\"")
      match getenv (name.takeWhile (· != 0)) with
      | none => .error (path ++ text ": environment variable " ++ name ++ text " is not set")
      | some value => do
        let result ← expandFrom getenv text' path rest none
        return value ++ result
    else expandFrom getenv text' path rest (some (name ++ [byte]))

/-- Each variable in braces behind a dollar sign is replaced with its value; one that is not set is an error. -/
def expand (getenv : Bytes → Option Bytes) (text' path : Bytes) : Thrown Bytes := expandFrom getenv text' path text' none

def readString (getenv : Bytes → Option Bytes) (object : Json) (key : String) (path : Bytes) (required : Bool) : Thrown Bytes :=
  let field := path ++ text "." ++ text key
  match object.find? key with
  | none => if required then .error (field ++ text " is required") else .ok []
  | some (.string value) => expand getenv value field
  | some _ => .error (field ++ text " must be a string")

def readStrings (getenv : Bytes → Option Bytes) (object : Json) (key : String) (path : Bytes) : Thrown (List Bytes) :=
  match object.find? key with
  | none => .ok []
  | some (.array items) =>
    items.zipIdx.mapM fun item =>
      match item.1 with
      | .string value => expand getenv value (elementPath path key item.2)
      | _ => .error (elementPath path key item.2 ++ text " must be a string")
  | some _ => .error (path ++ text "." ++ text key ++ text " must be an array of strings")

/-- An integer from 0 to `max`; a field that is not there keeps its value. -/
def readCount (object : Json) (key : String) (path : Bytes) (max output : Int) (expected : String) : Thrown Int :=
  match object.find? key with
  | none => .ok output
  | some (.integer value) =>
    if value < 0 ∨ max < value then .error (path ++ text "." ++ text key ++ text expected) else .ok value
  | some _ => .error (path ++ text "." ++ text key ++ text expected)

def readMilliseconds (object : Json) (key : String) (path : Bytes) (output : Int) : Thrown Int :=
  readCount object key path (24 * 60 * 60 * 1000) output " must be a non-negative integer of milliseconds, at most a day"

def readRestart (object : Json) (path : Bytes) (output : Restart) : Thrown Restart :=
  match object.find? "restart" with
  | none => .ok output
  | some value =>
    let name := value.string?.getD []
    if name = text "never" then .ok .never
    else if name = text "on_failure" then .ok .onFailure
    else if name = text "always" then .ok .always
    else .error (path ++ text ".restart must be \"never\", \"on_failure\", or \"always\"")

def readRequired (object : Json) (path : Bytes) (output : Bool) : Thrown Bool :=
  match object.find? "required" with
  | none => .ok output
  | some (.boolean value) => .ok value
  | some _ => .error (path ++ text ".required must be true or false")

/-! ## Paths -/

/-- `Absolute`. -/
def absolute (base value : Bytes) : Bytes := lexicallyNormal (if isAbsolute value then value else Path.join base value)

def resolveExecutable (world : World) (manifest : SystemManifest) (base value : Bytes) : Bytes :=
  if isAbsolute value then value
  else if hasParentPath value then absolute base value
  else
    let candidates := manifest.binPaths.flatMap fun directory => [Path.join directory value,
      Path.join directory (value ++ text ".exe")]
    match candidates.find? world.isFile with
    | some candidate => lexicallyNormal candidate
    | none => value

def resolveConfig (world : World) (manifest : SystemManifest) (base : Bytes) (name config path : Bytes) : Thrown Bytes :=
  let candidates :=
    if isAbsolute config then [config]
    else Path.join base config :: manifest.configPaths.map fun directory => Path.join directory config
  match candidates.find? world.isFile with
  | some candidate => .ok (lexicallyNormal candidate)
  | none =>
    let searched := candidates.foldl (fun searched candidate =>
      searched ++ (if searched = [] then [] else text ", ") ++ parentPath candidate) []
    .error (path ++ text ": config " ++ config ++ text " of node " ++ name ++ text " not found (searched " ++ searched
      ++ text ")")

/-! ## Decoding -/

/-- The separators of the listing, and a carriage return. -/
def isBreak (byte : UInt8) : Bool := byte == 0x09 || byte == 0x0a || byte == 0x0d

def checkName (name path : Bytes) (names : List Bytes) : Thrown Unit := do
  failIf ((validateName "node name" name).isOk = false) (path ++ text ".name: " ++ (validateName "node name" name).message)
  failIf (name ∈ names) (path ++ text ": node name " ++ name ++ text " is duplicated")

def checkArguments (arguments : List Bytes) (path : Bytes) : Thrown Unit :=
  -- tools print commands tab-separated, one node per line
  failIf (∃ argument ∈ arguments, argument.any isBreak)
    (path ++ text ".arguments: arguments must not contain tabs or line breaks")

/-- One node, behind those whose names are taken. -/
def decodeNode (world : World) (manifest : SystemManifest) (base : Bytes) (value : Json) (path : Bytes) (names : List Bytes) :
    Thrown NodeManifest := do
  value.checkObject path ["name", "executable", "config", "arguments", "start_delay_ms", "restart", "max_restarts",
    "restart_delay_ms", "required", "stop_timeout_ms"]
  let name ← readString world.getenv value "name" path true
  checkName name path names
  let node : Supervisor.NodeManifest := { name }
  let executable ← readString world.getenv value "executable" path true
  let config ← readString world.getenv value "config" path true
  let arguments ← readStrings world.getenv value "arguments" path
  checkArguments arguments path
  let startDelay ← readMilliseconds value "start_delay_ms" path node.startDelay
  let restartDelay ← readMilliseconds value "restart_delay_ms" path node.restartDelay
  let stopTimeout ← readMilliseconds value "stop_timeout_ms" path node.stopTimeout
  let restart ← readRestart value path node.restart
  let maxRestarts ← readCount value "max_restarts" path 1000000 node.maxRestarts.toNat " must be a non-negative integer"
  let required ← readRequired value path node.required
  let resolved ← resolveConfig world manifest base name config path
  return { name, startDelay, restart, maxRestarts := UInt32.ofNat maxRestarts.toNat, restartDelay, required, stopTimeout,
           executable := resolveExecutable world manifest base executable, config := resolved, arguments }

/-- The loop over the nodes. -/
def decodeNodes (world : World) (base : Bytes) (manifest : SystemManifest) (entry : Json × Nat) : Thrown SystemManifest := do
  let names := manifest.nodes.map fun node => node.name
  let node ← decodeNode world manifest base entry.1 (elementPath (text "$") "nodes" entry.2) names
  return { manifest with nodes := manifest.nodes ++ [node] }

def decodeDeployment (world : World) (base deployment : Bytes) : Thrown Bytes :=
  if deployment = [] then .ok []
  else do
    let resolved := absolute base deployment
    failIf (world.isFile resolved = false) (text "$.deployment: " ++ resolved ++ text " not found")
    return resolved

/-- The entries of `nodes`, of which there is at least one. -/
def nodeValues (root : Json) : Thrown (List Json) :=
  match root.find? "nodes" with
  | some (.array (value :: values)) => .ok (value :: values)
  | _ => .error (text "$.nodes must be a non-empty array")

def decode (world : World) (root : Json) (file : Bytes) : Thrown SystemManifest := do
  root.checkObject (text "$") ["name", "config_paths", "bin_paths", "deployment", "nodes"]
  let base := parentPath file
  let name ← readString world.getenv root "name" (text "$") false
  let configPaths ← readStrings world.getenv root "config_paths" (text "$")
  let binPaths ← readStrings world.getenv root "bin_paths" (text "$")
  let deployment ← readString world.getenv root "deployment" (text "$") false
  let deployment ← decodeDeployment world base deployment
  let values ← nodeValues root
  values.zipIdx.foldlM (decodeNodes world base)
    { name, path := lexicallyNormal file, configPaths := configPaths.map (absolute base)
      binPaths := binPaths.map (absolute base), deployment }

def loadSystemManifest (world : World) (path : Bytes) : Result SystemManifest :=
  match world.read path with
  | none => .error (.error .unavailable (text "cannot open system manifest: " ++ path))
  | some contents =>
    match world.absolute path with
    | .error message => .error (.error .unavailable (path ++ text ": " ++ message))
    | .ok file =>
      match world.parse contents >>= fun root => decode world root file with
      | .error message => invalidArgument (path ++ text ": " ++ message)
      | .ok manifest => .ok manifest

/-! ## Start commands -/

def SystemManifest.commandFor (manifest : SystemManifest) (node : NodeManifest) : List Bytes :=
  node.executable :: manifest.configPaths.flatMap (fun directory => [text "--config-path", directory])
    ++ (if manifest.deployment = [] then [] else [text "--deployment", manifest.deployment])
    ++ node.arguments ++ [node.config]

def tab : UInt8 := 0x09

def newline : UInt8 := 0x0a

def delayWord (node : NodeManifest) : Bytes := text "#delay_ms=" ++ signedText node.startDelay

def SystemManifest.printLine (manifest : SystemManifest) (node : NodeManifest) : Bytes :=
  node.name ++ (manifest.commandFor node).flatMap (fun word => tab :: word) ++ tab :: delayWord node ++ [newline]

/-- What `system commands` prints. -/
def SystemManifest.printCommands (manifest : SystemManifest) : Bytes := manifest.nodes.flatMap manifest.printLine

end PuppetMaster.Configuration.Manifest
