import Relay.Bytes
import Relay.Headers
import Relay.Numeral
import Relay.Store
/-!
# Chunks

A payload longer than an endpoint's chunk size goes out in pieces that share one message id;
each piece carries its index and the number of pieces in two headers. `split` cuts a payload,
`ChunkHeaders.read` and `write` handle the two headers.
-/
namespace Relay

inductive ChunkError
  | missingHeader (header : String)
  | invalidHeader (header value : String)
  | indexOutOfRange (index count : UInt32)
  | store (e : StoreError)
  deriving DecidableEq, Repr

namespace ChunkError

def message : ChunkError → String
  | .missingHeader h => "Missing " ++ h ++ " header"
  | .invalidHeader h v => "Invalid " ++ h ++ " header: " ++ v
  | .indexOutOfRange i n =>
    "Chunk index " ++ toString i.toNat ++ " out of range for " ++ toString n.toNat ++ " chunks"
  | .store e => e.message

end ChunkError

/-- Where pieces of `size` bytes begin: at `start` and every `size` bytes from there, below
`length`. -/
def starts (size length start : Nat) : List Nat :=
  if _h : 0 < size ∧ start < length then start :: starts size length (start + size) else []
termination_by length - start
decreasing_by omega

/-- Where the piece that begins at `start` ends. -/
def stop (size length start : Nat) : Nat := min (start + size) length

/-- The bytes from `start` up to `stop`. -/
def slice (payload : Bytes) (start stop : Nat) : Bytes := (payload.take stop).drop start

/-- Cuts a payload into chunks of at most `size` bytes; size zero does not cut. -/
def split (payload : Bytes) (size : Nat) : List Bytes :=
  if size = 0 ∨ payload.length ≤ size then [payload]
  else (starts size payload.length 0).map fun start =>
    slice payload start (stop size payload.length start)

/-- Position of a chunk in its set. -/
structure ChunkHeaders where
  index : UInt32
  count : UInt32
  deriving DecidableEq, Repr

namespace ChunkHeaders

def parse (h : Headers) (name : String) : Except ChunkError (Option UInt32) :=
  match h.get? name with
  | none => .ok none
  | some v =>
    match Numeral.readUInt32 v with
    | .ok n => .ok (some n)
    | .error _ => .error (.invalidHeader name v)

/-- The position the headers give, nothing when there is no index header. -/
def read (h : Headers) : Except ChunkError (Option ChunkHeaders) :=
  match parse h Headers.chunkIndex with
  | .error e => .error e
  | .ok none => .ok none
  | .ok (some index) =>
    match parse h Headers.chunksCount with
    | .error e => .error e
    | .ok none => .error (.missingHeader Headers.chunksCount)
    | .ok (some count) =>
      if count ≤ index then .error (.indexOutOfRange index count) else .ok (some ⟨index, count⟩)

def write (c : ChunkHeaders) (h : Headers) : Headers :=
  (h.insert Headers.chunkIndex (toString c.index.toNat)).insert
    Headers.chunksCount (toString c.count.toNat)

def remove (h : Headers) : Headers := (h.remove Headers.chunkIndex).remove Headers.chunksCount

end ChunkHeaders

/-- A parked chunk. -/
structure Chunk where
  messageId : String
  index : UInt32
  count : UInt32
  content : Bytes
  deriving DecidableEq, Repr

/-- Chunks with one id and index are one chunk. -/
def Chunk.sameKey (a b : Chunk) : Bool := a.messageId == b.messageId && a.index == b.index

end Relay
