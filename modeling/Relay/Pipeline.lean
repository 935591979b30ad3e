import Relay.Publish.Error
import Relay.Transaction
/-!
# The inbound pipeline

Every consumed message runs through an ordered chain of stages inside its batch's transaction:
chunk aggregation, deduplication, decryption where there is a cipher, deserialization, and
custom stages placed among them by their index. A message that passes every stage comes out as
an inbound envelope; a stage that does not go on consumes it.
-/
namespace Relay

variable {κ : Type}

/-- Errors raised while processing an inbound batch. -/
inductive InboundError
  | envelope (e : EnvelopeError)
  | chunk (e : ChunkError)
  | store (e : StoreError)
  | serialization (e : SerializationError)
  | cipher (e : CipherError)
  | dispatch (e : PublishError)
  | behavior (reason : String)
  deriving DecidableEq, Repr

namespace InboundError

def message : InboundError → String
  | .envelope e => e.message
  | .chunk e => e.message
  | .store e => e.message
  | .serialization e => e.message
  | .cipher e => e.message
  | .dispatch e => e.message
  | .behavior r => "Inbound behavior failed: " ++ r

/-- Failures that bypass the error policy and stop the consumer. -/
def isFatal : InboundError → Bool
  | .store e => e.isFatal
  | .chunk (.store e) => e.isFatal
  | _ => false

end InboundError

/-- A transaction and the world it runs in. -/
structure Inbox (κ : Type) where
  transaction : Transaction κ
  world : World κ

/-- A step of inbound processing. -/
abbrev Inbound (κ α : Type) := EStateM InboundError (Inbox κ) α

namespace Inbound

variable {ε α : Type}

/-- Runs an operation on the world. -/
def onWorld (f : ε → InboundError) (o : Op κ ε α) : Inbound κ α := fun s =>
  match o s.world with
  | .ok a w => .ok a { s with world := w }
  | .error e w => .error (f e) { s with world := w }

def ofExcept (f : ε → InboundError) : Except ε α → Inbound κ α
  | .ok a => pure a
  | .error e => throw (f e)

def logContains (id endpoint : String) : Inbound κ Bool := do
  onWorld .store ((← get).transaction.log.contains id endpoint)

def logAdd (id endpoint : String) : Inbound κ Unit := modify fun s =>
  { s with transaction := { s.transaction with log := s.transaction.log.add ⟨id, endpoint⟩ } }

/-- Takes a chunk into the transaction's session; the payload comes out once it is whole. -/
def aggregate (raw : RawEnvelope) : Inbound κ (Option Bytes) := do
  let session := (← get).transaction.chunks
  let (joined, session) ←
    onWorld .chunk (session.aggregate raw.messageId raw.headers raw.payload)
  modify fun s => { s with transaction := { s.transaction with chunks := session } }
  return joined

end Inbound

/-- One message on its way through the pipeline. -/
structure Passage where
  envelope : RawEnvelope
  /-- Set by deserialization. -/
  message : Option Message := none
  /-- Whether the message reached the end of the chain. -/
  accepted : Bool := false

abbrev Passing (κ : Type) := Passage → Inbound κ Passage

/-- A stage is given the rest of the chain and the message; without running the rest it
consumes the message. -/
structure Stage (κ : Type) where
  index : Int := 0
  handle : Passing κ → Passing κ

namespace Stage

/-- Parks chunks until their set is complete, then goes on with the joined payload. Chunks of a
message that is in the inbound log are dropped. -/
def chunkAggregation : Stage κ where
  index := 100
  handle next p := do
    match ← Inbound.ofExcept .chunk (ChunkHeaders.read p.envelope.headers) with
    | none => next p
    | some _ =>
      if ← Inbound.logContains p.envelope.messageId p.envelope.endpoint.name then return p
      match ← Inbound.aggregate p.envelope with
      | none => return p
      | some payload =>
        next { p with envelope := { p.envelope with
          payload, headers := ChunkHeaders.remove p.envelope.headers } }

/-- Stops messages that are in the inbound log for their endpoint and logs the others. -/
def deduplication : Stage κ where
  index := 200
  handle next p := do
    if ← Inbound.logContains p.envelope.messageId p.envelope.endpoint.name then return p
    Inbound.logAdd p.envelope.messageId p.envelope.endpoint.name
    next p

def decryption (c : Cipher) : Stage κ where
  index := 300
  handle next p := do
    let payload ← Inbound.ofExcept .cipher (c.decrypt p.envelope.payload p.envelope.headers)
    next { p with envelope := { p.envelope with payload } }

/-- Reads the payload unless an earlier stage has set the message. -/
def deserialization (r : Registry) : Stage κ where
  index := 400
  handle next p :=
    match p.message with
    | some _ => next p
    | none => do
      let m ← Inbound.ofExcept .serialization (r.deserialize p.envelope.payload p.envelope.headers)
      next { p with message := some m }

end Stage

/-- The stages in the order they run. -/
structure Pipeline (κ : Type) where
  stages : List (Stage κ)

namespace Pipeline

def builtIn (w : Wire) : List (Stage κ) :=
  [.chunkAggregation, .deduplication] ++ (w.cipher.map Stage.decryption).toList ++
    [.deserialization w.registry]

/-- The built-in and the custom stages by ascending index, equal ones in that order. -/
def create (w : Wire) (custom : List (Stage κ)) : Pipeline κ :=
  ⟨(builtIn w ++ custom).mergeSort fun a b => a.index ≤ b.index⟩

def run : List (Stage κ) → Passing κ
  | [] => fun p => return { p with accepted := true }
  | s :: ss => s.handle (run ss)

/-- Runs one raw message through the chain. Nothing comes out of a message that was consumed
without dispatch. -/
def process (p : Pipeline κ) (raw : RawEnvelope) : Inbound κ (Option Message) := do
  let r ← run p.stages { envelope := raw }
  return if r.accepted then some (.inbound r.envelope r.message true) else none

end Pipeline

end Relay
