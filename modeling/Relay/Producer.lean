import Relay.Chunk
import Relay.Registry
import Relay.World
/-!
# Producing

A message leaves as its payload, serialized and, with a cipher, encrypted, under headers that
carry its id. A payload longer than the endpoint's chunk size leaves as several messages that
share the id.
-/
namespace Relay

inductive ProduceError
  | serialization (e : SerializationError)
  | cipher (e : CipherError)
  | transport (e : TransportError)
  deriving DecidableEq, Repr

def ProduceError.message : ProduceError → String
  | .serialization e => e.message
  | .cipher e => e.message
  | .transport e => e.message

/-- A message on its way to an endpoint, with the headers it goes out under. -/
structure Outgoing where
  endpoint : Endpoint
  message : Message
  headers : Headers

namespace Wire

/-- The payload and the headers of a message as they go on the wire. -/
def pack (w : Wire) (m : Message) (h : Headers) : Except ProduceError (Bytes × Headers) :=
  match w.registry.serialize m h with
  | .error e => .error (.serialization e)
  | .ok (payload, h) =>
    match w.cipher with
    | none => .ok (payload, h)
    | some c =>
      match c.encrypt payload h with
      | .error e => .error (.cipher e)
      | .ok r => .ok r

end Wire

/-- The pieces of a payload, each under the headers with its position written in. -/
def number (h : Headers) (count : UInt32) (index : Nat) : List Bytes → List (Bytes × Headers)
  | [] => []
  | c :: cs =>
    (c, (ChunkHeaders.mk (UInt32.ofNat index) count).write h) :: number h count (index + 1) cs

/-- What goes out for a payload: itself, or its chunks if it is longer than the endpoint's
chunk size. -/
def parcels (endpoint : Endpoint) (payload : Bytes) (h : Headers) : List (Bytes × Headers) :=
  match endpoint.chunkSize with
  | none => [(payload, h)]
  | some size =>
    if 0 < size ∧ size < payload.length then
      let chunks := split payload size
      number h (UInt32.ofNat chunks.length) 0 chunks
    else [(payload, h)]

namespace World

variable {κ : Type}

/-- Produces the parcels in order, up to the first failure. -/
def produceAll (endpoint : Endpoint) : List (Bytes × Headers) → Op κ TransportError Unit
  | [] => pure ()
  | p :: ps => do
    World.produce endpoint p.1 p.2
    produceAll endpoint ps

/-- The message id in the headers, a generated one if there is none, and the headers with it. -/
def identify {ε : Type} (h : Headers) : Op κ ε (String × Headers) :=
  match h.get? Headers.messageId with
  | some id => pure (id, h)
  | none => do
    let id ← freshId
    return (id, h.insertIfMissing Headers.messageId id)

/-- Produces a message and returns its id. -/
def send (wire : Wire) (o : Outgoing) : Op κ ProduceError String := do
  let (id, h) ← identify o.headers
  let (payload, h) ← Op.ofExcept (wire.pack o.message h)
  (produceAll o.endpoint (parcels o.endpoint payload h)).mapError .transport
  return id

end World

end Relay
