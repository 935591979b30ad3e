import Relay.Pipeline
/-!
# Settling a batch

A batch that the error policy gives up on is settled: it is resolved into the messages it stands
for. Plain messages stay as they are, the chunk that completes a set becomes the joined message,
chunks of incomplete sets stay parked, and messages in the inbound log are dropped. What is
settled is logged, so that redeliveries are ignored.
-/
namespace Relay

variable {κ : Type}

namespace Settlement

/-- Whether the headers give a position in a chunk set. -/
def isChunk (h : Headers) : Bool :=
  match ChunkHeaders.read h with
  | .ok (some _) => true
  | _ => false

/-- The message as it was delivered or joined, nothing if it is dropped or parked. -/
def joinedOf (raw : RawEnvelope) (m : RawMessage) : Inbound κ (Option RawMessage) :=
  if isChunk raw.headers then do
    match ← Inbound.aggregate raw with
    | none => return none
    | some payload => return some { m with payload, headers := ChunkHeaders.remove m.headers }
  else return some m

/-- Settles one message received on the endpoint. -/
def one (endpoint : Endpoint) (m : RawMessage) : Inbound κ (Option RawMessage) :=
  match RawEnvelope.ofMessage endpoint m with
  | .error _ => return some m
  | .ok raw => do
    if ← Inbound.logContains raw.messageId endpoint.name then return none
    match ← joinedOf raw m with
    | none => return none
    | some settled =>
      Inbound.logAdd raw.messageId endpoint.name
      return some settled

def many (endpoint : Endpoint) : List RawMessage → Inbound κ (List RawMessage)
  | [] => return []
  | m :: ms => do
    let first ← one endpoint m
    let rest ← many endpoint ms
    return first.toList ++ rest

/-- Settles a batch in a fresh transaction, which is to be committed once the settled messages
are dealt with. A failure rolls it back. -/
def batch (wire : Wire) (endpoint : Endpoint) (ms : List RawMessage) :
    Op κ InboundError (List RawMessage × Transaction κ) := fun w =>
  match many endpoint ms ⟨{}, w⟩ with
  | .ok settled s => .ok (settled, s.transaction) s.world
  | .error e s => .error e ((s.transaction.rollback wire).exec s.world).2

/-- The headers a message is moved under. -/
def movedHeaders (source : Endpoint) (failed : UInt32) (h : Headers) : Headers :=
  (h.insert Headers.failedAttempts (toString failed.toNat)).insert
    Headers.sourceEndpoint source.name

/-- Produces the settled messages to the target, their payloads unchanged. -/
def move (source target : Endpoint) (failed : UInt32) : List RawMessage → Op κ TransportError Unit
  | [] => pure ()
  | m :: ms => do
    World.produce target m.payload (movedHeaders source failed m.headers)
    move source target failed ms

end Settlement

end Relay
