/-
  PuppetMaster.Core.MessagePolicy — `core::MessagePolicy` and its check
  (message_policy.h).
-/

import PuppetMaster.Core.Status

namespace PuppetMaster.Core

inductive DeliveryGuarantee where
  | bestEffort
  | reliable
  deriving DecidableEq, Repr

inductive RetentionPolicy where
  | keepLast
  | keepAll
  deriving DecidableEq, Repr

inductive FreshnessPolicy where
  | latest
  | queued
  deriving DecidableEq, Repr

inductive QueueOverflowPolicy where
  | dropOldest
  | dropNewest
  | block
  | reject
  deriving DecidableEq, Repr

structure MessagePolicy where
  delivery : DeliveryGuarantee := .bestEffort
  retention : RetentionPolicy := .keepLast
  freshness : FreshnessPolicy := .latest
  overflow : QueueOverflowPolicy := .dropOldest
  queueDepth : Nat := 1
  deriving DecidableEq, Repr

def MessagePolicy.validate (policy : MessagePolicy) : Status :=
  if policy.queueDepth = 0 then
    .error .invalidArgument (text "message policy queue_depth must be greater than zero")
  else .ok

end PuppetMaster.Core
