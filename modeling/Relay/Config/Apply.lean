import Relay.Engine
/-!
# Applying a configuration

The configured consumers and producers are made on the broker in service. Every policy is
checked before the broker is touched; consumers then come in order, and after them producers.
-/
namespace Relay

inductive ConfigError
  | policy (e : PolicyError)
  | broker (e : BrokerError)
  deriving DecidableEq, Repr

def ConfigError.message : ConfigError → String
  | .policy e => "Invalid error policy: " ++ e.message
  | .broker e => e.message

namespace Config

variable {κ : Type}

/-- Makes the consumers in order, up to the first that the broker refuses. -/
def applyConsumers : List (Endpoint × ConsumerSettings) → Engine κ →
    Except BrokerError Unit × Engine κ
  | [], s => (.ok (), s)
  | c :: cs, s =>
    match s.getConsumer c.1 c.2 with
    | (.error e, s) => (.error e, s)
    | (.ok _, s) => applyConsumers cs s

/-- Makes the producers in order. -/
def applyProducers (es : List Endpoint) (s : Engine κ) : Engine κ :=
  match s.broker with
  | none => s
  | some b => es.foldl (fun s e => s.useProducer b.number e) s

def apply (c : Config) (s : Engine κ) : Except ConfigError Unit × Engine κ :=
  match consumerSettings c.consumers with
  | .error e => (.error (.policy e), s)
  | .ok consumers =>
    match applyConsumers consumers s with
    | (.error e, s) => (.error (.broker e), s)
    | (.ok _, s) => (.ok (), applyProducers c.producers s)

end Config

end Relay
