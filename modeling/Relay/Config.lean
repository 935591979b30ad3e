import Relay.Consumer.Settings
import Relay.Policy.Config
/-!
# Application configuration

Broker, consumer and producer settings. Every record may leave out fields, which then take
their defaults.
-/
namespace Relay

/-- Subscribe retries before a consumer gives up connecting, unless configured. -/
def defaultConnectRetries : Nat := 10

structure ConsumerConfig where
  endpoint : Endpoint
  batch : BatchSettings
  policy : Option PolicyConfig

def ConsumerConfig.settings (c : ConsumerConfig) : Except PolicyError ConsumerSettings :=
  match c.policy with
  | none => .ok ⟨c.batch, none⟩
  | some p => p.toPolicy.map fun q => ⟨c.batch, some q⟩

structure Config where
  connectRetries : Nat := defaultConnectRetries
  /-- Consumers created before the broker connects. -/
  consumers : List ConsumerConfig := []
  /-- Producers created eagerly. -/
  producers : List Endpoint := []

namespace Config

def batchOf (m : Reading) (t : Tree) : Option BatchSettings := do
  let es ← fields? m ["size", "max_wait_ms"] t
  let size ← field es "size" 1 (word64 m)
  let maxWait ← field es "max_wait_ms" 1000 (word64 m)
  return { size, maxWait }

def consumerOf (m : Reading) (t : Tree) : Option ConsumerConfig := do
  let es ← fields? m ["endpoint", "batch", "error_policy"] t
  let endpoint ← field es "endpoint" default (endpointOf m)
  let batch ← field es "batch" {} (batchOf m)
  let policy ← field es "error_policy" none (optional (PolicyConfig.ofTree? m))
  return { endpoint, batch, policy }

def producerOf (m : Reading) (t : Tree) : Option Endpoint := do
  let es ← fields? m ["endpoint"] t
  field es "endpoint" default (endpointOf m)

def brokerOf (m : Reading) (t : Tree) : Option Nat := do
  let es ← fields? m ["connect_retries"] t
  field es "connect_retries" defaultConnectRetries (word64 m)

def ofTree? (m : Reading) (t : Tree) : Option Config := do
  let es ← fields? m ["broker", "consumers", "producers"] t
  let connectRetries ← field es "broker" defaultConnectRetries (brokerOf m)
  let consumers ← field es "consumers" [] (listOf (consumerOf m))
  let producers ← field es "producers" [] (listOf (producerOf m))
  return { connectRetries, consumers, producers }

/-- The settings of every configured consumer, or the first invalid policy's error. -/
def consumerSettings : List ConsumerConfig → Except PolicyError (List (Endpoint × ConsumerSettings))
  | [] => .ok []
  | c :: cs => do
    let s ← c.settings
    let rest ← consumerSettings cs
    return (c.endpoint, s) :: rest

end Config

end Relay
