import Relay.Scope
import Relay.Settlement
/-!
# Attempts

One attempt at a batch runs its messages through the pipeline in a fresh transaction, publishes
what comes out, and commits. `prepare` is the part before the publish; the rest of this module
is what may end a batch: a commit, a settlement, an acknowledgement.
-/
namespace Relay

variable {κ : Type}

/-- What a broker's consumers work with. -/
structure Service (κ : Type) where
  /-- Number of the broker. -/
  broker : Nat
  wire : Wire
  pipeline : Pipeline κ
  publisher : Publisher (Scope κ)
  /-- Subscribe retries before a consumer gives up connecting. -/
  connectRetries : Nat

namespace Attempt

/-- Runs the messages of a batch through the pipeline; the accepted ones come out in order. -/
def prepare (p : Pipeline κ) (endpoint : Endpoint) : List RawMessage → Inbound κ (List Message)
  | [] => return []
  | m :: ms => do
    let raw ← Inbound.ofExcept .envelope (RawEnvelope.ofMessage endpoint m)
    let first ← p.process raw
    let rest ← prepare p endpoint ms
    return first.toList ++ rest

/-- The offsets of a batch, in order. -/
def offsets (ms : List RawMessage) : List String := ms.filterMap RawMessage.offset

/-- Acknowledges a batch; one without offsets needs no call. -/
def acknowledge (endpoint : Endpoint) (ms : List RawMessage) : Op κ TransportError Unit :=
  if (offsets ms).isEmpty then pure () else World.acknowledge endpoint (offsets ms)

/-- Settles a batch, commits and acknowledges it. -/
def skip (s : Service κ) (endpoint : Endpoint) (ms : List RawMessage) : Op κ String Unit := do
  let (_, tx) ← (Settlement.batch s.wire endpoint ms).mapError InboundError.message
  (tx.commit s.wire).mapError StoreError.message
  (acknowledge endpoint ms).mapError TransportError.message

/-- The reason a consumer stops with when a move fails. -/
def moveFailed (target : Endpoint) (e : TransportError) : String :=
  "moving to '" ++ target.name ++ "' failed: " ++ e.message

/-- Settles a batch and moves it to the target before the commit; where the move fails the
settlement is rolled back. -/
def move (s : Service κ) (endpoint target : Endpoint) (failed : UInt32) (ms : List RawMessage) :
    Op κ String Unit := do
  let (settled, tx) ← (Settlement.batch s.wire endpoint ms).mapError InboundError.message
  World.useProducer s.broker target
  match ← (Settlement.move endpoint target failed settled).attempt with
  | .error e =>
    let _ ← (tx.rollback s.wire).attempt (δ := String)
    throw (moveFailed target e)
  | .ok _ =>
    (tx.commit s.wire).mapError StoreError.message
    (acknowledge endpoint ms).mapError TransportError.message

/-- The batch for the next attempt, with the number of failures in its headers. -/
def marked (failed : UInt32) (ms : List RawMessage) : List RawMessage :=
  ms.map fun m =>
    { m with headers := m.headers.insert Headers.failedAttempts (toString failed.toNat) }

end Attempt

end Relay
