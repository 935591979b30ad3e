import Relay.Scope
/-!
# Outbound routing

The router is a publisher behavior that forwards messages to endpoints. A message goes to the
endpoint of every route it matches, an outbound envelope to its own endpoint; inbound envelopes
are never sent out again. What no route takes, or a route also publishes locally, goes on to
the subscribers.

Messages are produced at once, or queued in the outbox while there is a current one.
-/
namespace Relay

variable {κ : Type}

/-- Messages of the type are produced to the endpoint. -/
structure Route where
  type : MessageType
  endpoint : Endpoint
  /-- Also hand the message to the subscribers. -/
  publishLocally : Bool

structure Router where
  wire : Wire
  routes : List Route

namespace Router

/-- The index at which a router stands among the behaviors. -/
def sortIndex : Int := 300

/-- Sends a message through the broker of a number, which has to be in service. -/
def send (r : Router) (broker : Nat) (o : Outgoing) :
    EStateM PublishError (Scope κ) Unit := fun s =>
  if s.world.broker = some broker then
    match (World.useProducer (ε := ProduceError) broker o.endpoint).exec s.world with
    | (_, w) =>
      match s.outbox with
      | some queued => .ok () ⟨w, some (queued ++ [o])⟩
      | none =>
        match World.send r.wire o w with
        | .ok _ w => .ok () ⟨w, none⟩
        | .error e w => .error (.produce o.endpoint.name e) ⟨w, none⟩
  else .error (.behavior "broker has been dropped") s

def sendAll (r : Router) (broker : Nat) : List Outgoing → EStateM PublishError (Scope κ) Unit
  | [] => pure ()
  | o :: os => do
    r.send broker o
    sendAll r broker os

/-- The routes a message matches. -/
def routesFor (r : Router) (m : Message) : List Route :=
  r.routes.filter fun x => x.type.matchesMessage m

/-- What a message is sent out as. -/
def outgoing (r : Router) (m : Message) : List Outgoing :=
  match m with
  | .outbound inner h e _ => [⟨e, inner, h⟩]
  | .inbound .. => []
  | .record _ => (r.routesFor m).map fun x => ⟨x.endpoint, m, .empty⟩

/-- Whether the subscribers get to see a message. -/
def staysLocal (r : Router) (m : Message) : Bool :=
  match m with
  | .outbound .. => false
  | .inbound .. => true
  | .record _ => (r.routesFor m).isEmpty || (r.routesFor m).any Route.publishLocally

/-- Routes the messages in order. -/
def behavior (r : Router) (index : Int := sortIndex) : Behavior (Scope κ) where
  index := index
  handle broker _ next ms :=
    .act (fun s =>
      match r.sendAll broker (ms.flatMap r.outgoing) s with
      | .ok _ s => (Except.ok (), s)
      | .error e s => (Except.error e, s)) fun sent =>
      match sent with
      | .error e => .done (.error e)
      | .ok _ =>
        let remaining := ms.filter r.staysLocal
        if remaining.isEmpty then .done (.ok []) else next remaining

end Router

end Relay
