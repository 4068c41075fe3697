/-
  PuppetMaster.Core.Endpoint — topics and endpoints (`core::TopicSpec`,
  `transport::EndpointConfig`) and the check of each.
-/

import PuppetMaster.Core.Check
import PuppetMaster.Core.Message
import PuppetMaster.Core.MessagePolicy

namespace PuppetMaster.Core

inductive TransportKind where
  | inMemory
  | fastDds
  | zmq
  | ipc
  deriving DecidableEq, Repr

def TransportKind.toText : TransportKind → Bytes
  | .inMemory => text "in_memory"
  | .fastDds => text "fastdds"
  | .zmq => text "zmq"
  | .ipc => text "ipc"

inductive TopicLifetime where
  | shared
  | readerOwned
  deriving DecidableEq, Repr

structure TopicSpec where
  name : Bytes
  transport : TransportKind := .inMemory
  messagePolicy : MessagePolicy := {}
  lifetime : TopicLifetime := .shared
  deriving DecidableEq

def TopicSpec.validate (topic : TopicSpec) : Status :=
  let status := validateName "topic name" topic.name
  if !status.isOk then status else topic.messagePolicy.validate

structure EndpointConfig where
  topic : TopicSpec
  message : MessageDescriptor
  deriving DecidableEq

def EndpointConfig.validate (endpoint : EndpointConfig) : Status :=
  let status := endpoint.topic.validate
  if !status.isOk then status else endpoint.message.validate

def statusCodeName : StatusCode → Bytes
  | .ok => text "ok"
  | .cancelled => text "cancelled"
  | .unknown => text "unknown"
  | .invalidArgument => text "invalid_argument"
  | .notFound => text "not_found"
  | .alreadyExists => text "already_exists"
  | .failedPrecondition => text "failed_precondition"
  | .outOfRange => text "out_of_range"
  | .permissionDenied => text "permission_denied"
  | .resourceExhausted => text "resource_exhausted"
  | .unsupported => text "unsupported"
  | .unavailable => text "unavailable"
  | .deadlineExceeded => text "deadline_exceeded"
  | .dataLoss => text "data_loss"
  | .internal => text "internal"

/-- `Status::ToString`. -/
def Status.toText (status : Status) : Bytes :=
  if status.message.isEmpty then statusCodeName status.code
  else statusCodeName status.code ++ text ": " ++ status.message

end PuppetMaster.Core
