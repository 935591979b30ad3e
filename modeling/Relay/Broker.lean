import Relay.Backoff
import Relay.Config
import Relay.Consumer.Worker
/-!
# Consumers and their broker

A consumer receives the messages of one endpoint; a worker runs for it while it is connected. A
broker keeps one consumer an endpoint, with the settings it was first asked for. Consumers
cannot be added while the broker is connected, and they need the publisher they dispatch to.
-/
namespace Relay

variable {κ : Type}

inductive Status
  | idle
  | running
  | stopped
  /-- Stopped by an error the policy did not handle. -/
  | failed (reason : String)
  deriving DecidableEq, Repr

inductive BrokerError
  | alreadyConnected (endpoint : String)
  | publisherNotBound
  | publisherAlreadyBound
  | policy (e : PolicyError)
  | transport (e : TransportError)
  deriving DecidableEq, Repr

def BrokerError.message : BrokerError → String
  | .alreadyConnected e => "Broker is connected, cannot add a consumer for '" ++ e ++ "'"
  | .publisherNotBound => "No publisher bound to the broker"
  | .publisherAlreadyBound => "A publisher is already bound to the broker"
  | .policy e => "Invalid error policy: " ++ e.message
  | .transport e => e.message

/-! ## Consumers -/

structure Consumer (κ : Type) where
  id : Nat
  endpoint : Endpoint
  settings : ConsumerSettings
  service : Service κ
  /-- The worker of a consumer that was connected and not disconnected since. -/
  worker : Option (Worker κ) := none
  /-- How the last worker that was disconnected ended. -/
  past : Status := .idle

/-- The status a worker has brought its consumer to. A worker that panics leaves it as it was. -/
def Worker.status (w : Worker κ) : Status :=
  match w.phase with
  | .stopped => .stopped
  | .failed reason => .failed reason
  | _ => .running

namespace Consumer

def status (c : Consumer κ) : Status :=
  match c.worker with
  | some w => w.status
  | none => c.past

/-- Starts a worker on a subscription. -/
def start (c : Consumer κ) (stream : Subscription) : Consumer κ :=
  let w : Worker κ :=
    { endpoint := c.endpoint, settings := c.settings, service := c.service, stream }
  { c with worker := some w }

def mapSignal (f : Signal → Signal) (c : Consumer κ) : Consumer κ :=
  { c with worker := c.worker.map fun w => { w with signal := f w.signal } }

/-- Lets go of a worker that has ended. -/
def release (c : Consumer κ) : Consumer κ :=
  match c.worker with
  | none => c
  | some w =>
    match w.phase with
    | .panicked => { c with worker := none, past := .failed "consumer task panicked" }
    | _ => { c with worker := none, past := w.status }

/-- Replaces the consumer of the same id. -/
def replace (new : Consumer κ) (cs : List (Consumer κ)) : List (Consumer κ) :=
  cs.map fun c => if c.id = new.id then new else c

end Consumer

/-! ## Brokers -/

structure Broker (κ : Type) where
  number : Nat
  wire : Wire
  pipeline : Pipeline κ
  connectRetries : Nat := defaultConnectRetries
  publisher : Option (Publisher (Scope κ)) := none
  connected : Bool := false
  consumers : List (Consumer κ) := []

namespace Broker

/-- Binds the publisher that consumers dispatch to, once. -/
def bindPublisher (b : Broker κ) (p : Publisher (Scope κ)) : Except BrokerError (Broker κ) :=
  match b.publisher with
  | some _ => .error .publisherAlreadyBound
  | none => .ok { b with publisher := some p }

def consumer? (b : Broker κ) (e : Endpoint) : Option (Consumer κ) :=
  b.consumers.find? fun c => c.endpoint = e

/-- The consumer of an endpoint, made with the settings and the id if there is none. -/
def getConsumerWith (b : Broker κ) (id : Nat) (e : Endpoint) (s : ConsumerSettings) :
    Except BrokerError (Consumer κ × Broker κ) :=
  match b.consumer? e with
  | some c => .ok (c, b)
  | none =>
    if b.connected then .error (.alreadyConnected e.name)
    else
      match s.validate with
      | .error err => .error (.policy err)
      | .ok _ =>
        match b.publisher with
        | none => .error .publisherNotBound
        | some p =>
          let service := ⟨b.number, b.wire, b.pipeline, p, b.connectRetries⟩
          let c : Consumer κ := ⟨id, e, s, service, none, .idle⟩
          .ok (c, { b with consumers := b.consumers ++ [c] })

end Broker

end Relay
