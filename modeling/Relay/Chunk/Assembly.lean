import Relay.Chunk
/-!
# Assembly of chunk sets

`arrive` decides what a chunk does to the chunks of its set that are already there: it is a
duplicate, it is parked, or it completes the set, whose joined payload comes out.
-/
namespace Relay

/-- What the arrival of a chunk does. -/
inductive Arrival
  | duplicate
  | parked (c : Chunk)
  | complete (payload : Bytes)

/-- Joins chunks in the order of their indexes. -/
def join (cs : List Chunk) : Bytes :=
  (cs.mergeSort fun a b => a.index ≤ b.index).flatMap Chunk.content

/-- The arrival of a chunk beside the chunks there are of its set. The first of these decides
how many chunks the set has. -/
def arrive (existing : List Chunk) (id : String) (h : ChunkHeaders) (content : Bytes) : Arrival :=
  if existing.any fun c => c.index == h.index then .duplicate
  else
    let count := match existing with
      | [] => h.count
      | c :: _ => c.count
    let chunk : Chunk := ⟨id, h.index, count, content⟩
    if existing.length + 1 < count.toNat then .parked chunk
    else .complete (join (existing ++ [chunk]))

end Relay
