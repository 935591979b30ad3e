import Relay.Chunk
import Relay.Table
/-!
# Chunk stores

Where incomplete chunk sets wait. In memory the chunks stand in order of arrival; in a database
they are the rows of a table. Storing a chunk whose id and index are present does nothing.
-/
namespace Relay

/-! ## Chunks in memory -/

namespace Chunks

def ofMessage (cs : List Chunk) (id : String) : List Chunk := cs.filter fun c => c.messageId == id

def storeOne (cs : List Chunk) (c : Chunk) : List Chunk :=
  if cs.any fun d => Chunk.sameKey d c then cs else cs ++ [c]

def store (cs : List Chunk) (new : List Chunk) : List Chunk := new.foldl storeOne cs

def cleanup (cs : List Chunk) (ids : List String) : List Chunk :=
  cs.filter fun c => !ids.contains c.messageId

end Chunks

/-! ## Chunks as rows -/

/-- A word as an integer column holds it. -/
def widen (n : UInt32) : Int64 := n.toUInt64.toInt64

/-- The lower half of an integer column. -/
def narrow (n : Int64) : UInt32 := n.toUInt64.toUInt32

theorem narrow_widen (n : UInt32) : narrow (widen n) = n := by simp [narrow, widen]

/-- A row of the chunk table. Its integers are of 64 bits, and only words are ever written. -/
structure ChunkRow where
  messageId : String
  index : Int64
  count : Int64
  content : Bytes
  index_word : widen (narrow index) = index
  count_word : widen (narrow count) = count

namespace ChunkRow

def ofChunk (c : Chunk) : ChunkRow where
  messageId := c.messageId
  index := widen c.index
  count := widen c.count
  content := c.content
  index_word := by rw [narrow_widen]
  count_word := by rw [narrow_widen]

def toChunk (r : ChunkRow) : Chunk := ⟨r.messageId, narrow r.index, narrow r.count, r.content⟩

/-- The primary key: the id and the index. -/
def sameKey (r s : ChunkRow) : Bool := r.messageId == s.messageId && r.index == s.index

end ChunkRow

/-! ## Backends -/

inductive ChunkStore
  | memory (chunks : List Chunk)
  /-- No table where the schema was never set up. -/
  | table (rows : Option (Table ChunkRow))

namespace ChunkStore

def tableName : String := "courier_chunks"

def create : Storage → ChunkStore
  | .memory => .memory []
  | .table true => .table (some .empty)
  | .table false => .table none

def count (s : ChunkStore) (id : String) : Except StoreError Nat :=
  match s with
  | .memory cs => .ok (Chunks.ofMessage cs id).length
  | .table t => do
    let t ← Table.find tableName t [id]
    return t.count fun r => r.messageId == id

/-- The chunks of one message in order of arrival. -/
def get (s : ChunkStore) (id : String) : Except StoreError (List Chunk) :=
  match s with
  | .memory cs => .ok (Chunks.ofMessage cs id)
  | .table t => do
    let t ← Table.find tableName t [id]
    return (t.select fun r => r.messageId == id).map ChunkRow.toChunk

def store (s : ChunkStore) (new : List Chunk) : Except StoreError ChunkStore :=
  match s with
  | .memory cs => .ok (.memory (Chunks.store cs new))
  | .table t =>
    (Table.insertAll tableName ChunkRow.sameKey (fun r => [r.messageId]) t
      (new.map ChunkRow.ofChunk)).map .table

def cleanup (s : ChunkStore) (ids : List String) : Except StoreError ChunkStore :=
  match s with
  | .memory cs => .ok (.memory (Chunks.cleanup cs ids))
  | .table t =>
    if ids.isEmpty then .ok (.table t)
    else do
      let t ← Table.find tableName t ids
      return .table (some (t.delete fun r => ids.contains r.messageId))

/-- Number of parked chunks across all messages, known for the store in memory. -/
def total? : ChunkStore → Option Nat
  | .memory cs => some cs.length
  | .table _ => none

end ChunkStore

end Relay
