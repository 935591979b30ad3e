import Relay.Chunk.Assembly
import Relay.World
/-!
# Chunk sessions

A session buffers the chunks a transaction parks and the sets it cleans up until they are
committed; reads see the buffered changes.
-/
namespace Relay

structure ChunkSession where
  /-- Chunks parked in this session, in order. -/
  stored : List Chunk := []
  /-- Ids of the sets cleaned up in this session, ascending. -/
  cleaned : List String := []

/-- Adds an id to an ascending list. -/
def insertId (id : String) : List String → List String
  | [] => [id]
  | x :: xs =>
    match compare id x with
    | .lt => id :: x :: xs
    | .eq => x :: xs
    | .gt => x :: insertId id xs

namespace ChunkSession

variable {κ : Type}

def pendingFor (s : ChunkSession) (id : String) : List Chunk := Chunks.ofMessage s.stored id

def store (s : ChunkSession) (c : Chunk) : ChunkSession := { s with stored := s.stored ++ [c] }

def cleanup (s : ChunkSession) (id : String) : ChunkSession :=
  ⟨s.stored.filter fun c => c.messageId != id, insertId id s.cleaned⟩

def count (s : ChunkSession) (id : String) : Op κ StoreError Nat := do
  let committed ← if s.cleaned.contains id then pure 0 else World.countChunks id
  return committed + (s.pendingFor id).length

/-- The chunks of a message as they will be after the commit. -/
def get (s : ChunkSession) (id : String) : Op κ StoreError (List Chunk) := do
  let committed ← if s.cleaned.contains id then pure [] else World.getChunks id
  return committed ++ s.pendingFor id

/-- Takes in a chunk of a message. The payload comes out with the chunk that completes the
set; while chunks are missing, and for a chunk that is there already, nothing does. -/
def aggregate (s : ChunkSession) (id : String) (headers : Headers) (payload : Bytes) :
    Op κ ChunkError (Option Bytes × ChunkSession) := do
  match ← Op.ofExcept (ChunkHeaders.read headers) with
  | none => throw (.missingHeader Headers.chunkIndex)
  | some h =>
    let existing ← (s.get id).mapError .store
    match arrive existing id h payload with
    | .duplicate => return (none, s)
    | .parked c => return (none, s.store c)
    | .complete joined => return (some joined, s.cleanup id)

/-- Cleans up first, then stores; the session starts afresh. One whose commit fails keeps its
buffers. -/
def commit (s : ChunkSession) : Op κ StoreError ChunkSession := do
  unless s.cleaned.isEmpty do World.cleanChunks s.cleaned
  unless s.stored.isEmpty do World.storeChunks s.stored
  return {}

/-- Forgets what is buffered. -/
def rollback (_ : ChunkSession) : ChunkSession := {}

end ChunkSession

end Relay
