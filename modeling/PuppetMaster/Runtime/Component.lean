/-
  PuppetMaster.Runtime.Component — `runtime::ComponentSpec` and `ComponentRegistry`.

  The registry is a map ordered by name. Descriptions and parameters are left out: nothing
  here reads them.
-/

import PuppetMaster.Core.Endpoint
import PuppetMaster.Lib.SortedMap
import PuppetMaster.Scheduler.Trigger
import PuppetMaster.Service.Endpoints

namespace PuppetMaster.Runtime

open PuppetMaster.Core PuppetMaster.Lib PuppetMaster.Scheduler PuppetMaster.Service

structure ComponentSpec where
  name : Name
  readers : List EndpointConfig := []
  writers : List EndpointConfig := []
  triggers : List TriggerSpec := []
  servers : List ServiceDeclaration := []
  clients : List ServiceDeclaration := []

def validateEndpoints (endpoints : List EndpointConfig) (endpointKind : String) : Result Unit :=
  endpoints.forM fun endpoint =>
    if endpoint.validate.isOk then .ok ()
    else .error (.error .invalidArgument
      (text endpointKind ++ text " endpoint is invalid: " ++ endpoint.validate.toText))

def ComponentSpec.validate (spec : ComponentSpec) : Result Unit := do
  (validateName "component name" spec.name).check
  validateEndpoints spec.readers "reader"
  validateEndpoints spec.writers "writer"
  spec.triggers.forM (·.validate.check)
  spec.servers.forM (·.validate.check)
  spec.clients.forM (·.validate.check)

abbrev ComponentRegistry := SortedMap Name ComponentSpec

namespace ComponentRegistry

def register (registry : ComponentRegistry) (spec : ComponentSpec) : Result ComponentRegistry := do
  spec.validate
  if (registry.find? spec.name).isSome then
    .error (.error .alreadyExists (text "component already registered: " ++ spec.name))
  return registry.insert spec.name spec

def find (registry : ComponentRegistry) (name : Name) : Result ComponentSpec :=
  match registry.find? name with
  | some spec => .ok spec
  | none => .error (.error .notFound (text "component is not registered: " ++ name))

def listNames (registry : ComponentRegistry) : List Name := registry.entries.map Prod.fst

end ComponentRegistry

end PuppetMaster.Runtime
