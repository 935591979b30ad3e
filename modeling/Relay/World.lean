import Relay.Chunk.Store
import Relay.InboundLog
import Relay.Transport
/-!
# The state consumers and producers share

The world holds the durable stores, the transport, the failures in store for them, the producers
a broker has made, and a journal. `Op κ ε α` is an operation on the world that fails with `ε`;
what it did before it failed stays done. Calls to a store or the transport are decided by the
failure rules first.

The journal records the durable writes and, as `note`s of type `κ`, whatever the application's
own parts report.
-/
namespace Relay

inductive Entry (κ : Type)
  | appended (entries : List LogEntry)
  | cleaned (ids : List String)
  | acknowledged (endpoint : String) (offsets : List String)
  | note (k : κ)

structure World (κ : Type) where
  log : InboundLog
  chunks : ChunkStore
  transport : Transport := {}
  rules : List Rule := []
  /-- Latest entry first. -/
  journal : List (Entry κ) := []
  /-- Number of the broker in service, none once it was dropped. -/
  broker : Option Nat := some 0
  /-- Number of the broker that was put into service last. -/
  latest : Nat := 0
  /-- Endpoints that the broker in service has producers for, in order of first use. -/
  producers : List Endpoint := []
  /-- Message ids generated so far. -/
  issued : Nat := 0

/-- An operation on the world. -/
abbrev Op (κ ε α : Type) := EStateM ε (World κ) α

namespace Op

variable {κ ε δ α : Type}

/-- Runs an operation, its outcome beside the world it leaves. -/
def exec (o : Op κ ε α) (w : World κ) : Except ε α × World κ :=
  match o w with
  | .ok a w => (.ok a, w)
  | .error e w => (.error e, w)

/-- Changes the type of the failures. -/
def mapError (f : ε → δ) (o : Op κ ε α) : Op κ δ α := fun w =>
  match o w with
  | .ok a w => .ok a w
  | .error e w => .error (f e) w

/-- An operation that cannot fail, with the outcome as its result. -/
def attempt (o : Op κ ε α) : Op κ δ (Except ε α) := fun w =>
  let r := o.exec w
  .ok r.1 r.2

def ofExcept : Except ε α → Op κ ε α
  | .ok a => pure a
  | .error e => throw e

end Op

namespace World

variable {κ ε : Type}

def create (s : Storage) : World κ := { log := .create s, chunks := .create s }

def record (e : Entry κ) : Op κ ε Unit := modify fun w => { w with journal := e :: w.journal }

def note (k : κ) : Op κ ε Unit := record (.note k)

/-- The application's notes, oldest first. -/
def notes (w : World κ) : List κ :=
  w.journal.foldl (fun acc e => match e with | .note k => k :: acc | _ => acc) []

/-! ## Message ids -/

/-- What generated message ids begin with. -/
def idStart : String := "00000000-0000-4000-8000-"

/-- The number of digits behind it. -/
def idLength : Nat := 12

/-- A generated message id, different from every other one. -/
def freshId : Op κ ε String := fun w =>
  let digits := toString w.issued
  let pad := String.ofList (List.replicate (idLength - digits.length) '0')
  .ok (idStart ++ pad ++ digits) { w with issued := w.issued + 1 }

/-! ## Failures -/

def decide (site : Site) (key : String) : Op κ ε Failure := fun w =>
  let r := strike site key w.rules
  .ok r.1 { w with rules := r.2 }

/-- Fails if the rules say so of this store call. -/
def guardStore (site : Site) (key : String) : Op κ StoreError Unit := do
  match (← decide site key).asStore site with
  | some e => throw e
  | none => return ()

/-- Fails if the rules say so of this transport call. -/
def guardTransport (site : Site) (key : String) : Op κ TransportError Unit := do
  match (← decide site key).asTransport site key with
  | some e => throw e
  | none => return ()

/-! ## The inbound log -/

def logContains (id endpoint : String) : Op κ StoreError Bool := do
  guardStore .logExists id
  Op.ofExcept ((← get).log.contains id endpoint)

def firstId (es : List LogEntry) : String := (es.head?.map LogEntry.messageId).getD ""

def logAppend (es : List LogEntry) : Op κ StoreError Unit := do
  guardStore .logAppend (firstId es)
  record (.appended es)
  let log ← Op.ofExcept ((← get).log.append es)
  modify fun w => { w with log }

/-! ## The chunk store -/

def countChunks (id : String) : Op κ StoreError Nat := do
  guardStore .chunksCount id
  Op.ofExcept ((← get).chunks.count id)

def getChunks (id : String) : Op κ StoreError (List Chunk) := do
  guardStore .chunksGet id
  Op.ofExcept ((← get).chunks.get id)

def storeChunks (cs : List Chunk) : Op κ StoreError Unit := do
  guardStore .chunksStore ((cs.head?.map Chunk.messageId).getD "")
  let chunks ← Op.ofExcept ((← get).chunks.store cs)
  modify fun w => { w with chunks }

def cleanChunks (ids : List String) : Op κ StoreError Unit := do
  guardStore .chunksCleanup (ids.head?.getD "")
  record (.cleaned ids)
  let chunks ← Op.ofExcept ((← get).chunks.cleanup ids)
  modify fun w => { w with chunks }

/-! ## The transport -/

/-- Appends a message to the topic of the endpoint. -/
def produce (endpoint : Endpoint) (payload : Bytes) (headers : Headers) :
    Op κ TransportError Unit := do
  guardTransport .produce endpoint.name
  let transport ← Op.ofExcept ((← get).transport.produce endpoint.name payload headers)
  modify fun w => { w with transport }

def subscribe (endpoint : Endpoint) : Op κ TransportError Subscription := do
  guardTransport .subscribe endpoint.name
  let r := (← get).transport.subscribe endpoint.name
  modify fun w => { w with transport := r.2 }
  Op.ofExcept r.1

/-- Marks messages as processed, so that they are not delivered again. -/
def acknowledge (endpoint : Endpoint) (offsets : List String) : Op κ TransportError Unit := do
  guardTransport .acknowledge endpoint.name
  record (.acknowledged endpoint.name offsets)
  let transport ← Op.ofExcept ((← get).transport.acknowledge endpoint.name offsets)
  modify fun w => { w with transport }

/-- Makes sure that the broker of the given number has a producer for the endpoint. -/
def useProducer (broker : Nat) (endpoint : Endpoint) : Op κ ε Unit := modify fun w =>
  if w.broker = some broker ∧ endpoint ∉ w.producers then
    { w with producers := w.producers ++ [endpoint] }
  else w

end World

end Relay
