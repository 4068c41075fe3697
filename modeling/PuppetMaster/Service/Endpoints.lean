/-
  PuppetMaster.Service.Endpoints — a service as it is declared, and the topics it uses.

  `ServiceDeclaration` is `service::ServiceSpec` with everything that is checked;
  `endpointsFor` names its request, reply and presence topics after it, and
  `replyEndpointFor` the reply topic of one client.
-/

import PuppetMaster.Core.Endpoint
import PuppetMaster.Lib.Hex
import PuppetMaster.Service.Client

namespace PuppetMaster.Service

open PuppetMaster.Core

structure ServiceDeclaration extends ServiceSpec where
  transport : TransportKind := .inMemory
  request : MessageDescriptor
  reply : MessageDescriptor
  queueDepth : Nat := 16

def ServiceDeclaration.validate (spec : ServiceDeclaration) : Status :=
  let status := validateName "service name" spec.name
  if !status.isOk then status
  else if !spec.request.validate.isOk then
    .error .invalidArgument (describe spec.toServiceSpec ++ text " request: " ++ spec.request.validate.message)
  else if !spec.reply.validate.isOk then
    .error .invalidArgument (describe spec.toServiceSpec ++ text " reply: " ++ spec.reply.validate.message)
  else if spec.queueDepth = 0 then
    .error .invalidArgument (describe spec.toServiceSpec ++ text ": queue_depth must be greater than zero")
  else if spec.heartbeatInterval ≤ 0 then
    .error .invalidArgument (describe spec.toServiceSpec ++ text ": heartbeat_interval must be greater than zero")
  else .ok

structure ServiceEndpoints where
  request : EndpointConfig
  reply : EndpointConfig
  presence : EndpointConfig

def subTopic (service : Bytes) (suffix : String) : Result Bytes :=
  createName "topic name" (service ++ text "/" ++ text suffix)

def prefixed (before : String) (payload : MessageDescriptor) : MessageDescriptor :=
  { payload with typeName := text before ++ payload.typeName }

def presenceType : MessageDescriptor := ⟨text "service.Presence.v2", text "application/x-puppetmaster-presence", 2⟩

def endpointsFor (spec : ServiceDeclaration) : Result ServiceEndpoints := do
  spec.validate.check
  let request ← subTopic spec.name "request"
  let reply ← subTopic spec.name "reply"
  let presence ← subTopic spec.name "presence"
  -- the longest name the service uses
  let _ ← subTopic spec.name "reply/0000000000000000"
  let queued : MessagePolicy :=
    { delivery := .reliable, freshness := .queued, overflow := .dropOldest, queueDepth := spec.queueDepth }
  return {
    request := ⟨{ name := request, transport := spec.transport, messagePolicy := queued },
      prefixed "service.request:" spec.request⟩
    reply := ⟨{ name := reply, transport := spec.transport, messagePolicy := queued, lifetime := .readerOwned },
      prefixed "service.reply:" spec.reply⟩
    presence := ⟨{ name := presence, transport := spec.transport }, presenceType⟩ }

/-- `Hex16`: the low digit is taken first and goes to the end. -/
def hex16 (value : UInt64) : Bytes := Lib.hexDigits 16 value.toNat

/-- One client's reply topic: the service's reply endpoint, renamed. -/
def replyEndpoint (base : EndpointConfig) (clientId : UInt64) : Result EndpointConfig := do
  let name ← createName "topic name" (base.topic.name ++ text "/" ++ hex16 clientId)
  return { base with topic := { base.topic with name := name } }

def replyEndpointFor (spec : ServiceDeclaration) (clientId : UInt64) : Result EndpointConfig := do
  let endpoints ← endpointsFor spec
  replyEndpoint endpoints.reply clientId

end PuppetMaster.Service
