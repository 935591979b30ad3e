import Relay.Chunk.Session
import Relay.InboundLog.Session
import Relay.Producer
/-!
# Consumer transactions

Everything that processing a batch changes waits in its transaction: messages in the outbox,
entries for the inbound log, changes of the chunk store, and resources enlisted by others.
Participants commit one after the other in that order. Where one fails, it and those behind it
are rolled back, and those before it stay committed.
-/
namespace Relay

variable {κ : Type}

/-- A participant of a transaction. -/
structure Resource (κ : Type) where
  commit : Op κ StoreError Unit
  rollback : Op κ StoreError Unit

structure Transaction (κ : Type) where
  /-- Messages waiting for the commit, in the order they were added. -/
  outbox : List Outgoing := []
  log : LogSession := {}
  chunks : ChunkSession := {}
  resources : List (Resource κ) := []

/-- Produces the waiting messages in order. -/
def flush (wire : Wire) : List Outgoing → Op κ StoreError Unit
  | [] => pure ()
  | o :: os => do
    let _ ← (World.send wire o).mapError fun e =>
      .backend ("producing to '" ++ o.endpoint.name ++ "' failed: " ++ e.message)
    flush wire os

namespace Resource

/-- Rolls back every resource; the first failure comes out. -/
def rollbackAll : List (Resource κ) → Op κ StoreError Unit
  | [] => pure ()
  | r :: rs => do
    let first ← r.rollback.attempt
    let rest ← (rollbackAll rs).attempt
    Op.ofExcept (match first with
      | .error e => .error e
      | .ok _ => rest)

/-- Commits the resources in order; at the first failure the failing one and all behind it are
rolled back. -/
def commitAll : List (Resource κ) → Op κ StoreError Unit
  | [] => pure ()
  | r :: rs => do
    match ← r.commit.attempt with
    | .ok _ => commitAll rs
    | .error e =>
      let _ ← (rollbackAll (r :: rs)).attempt (δ := StoreError)
      throw e

end Resource

namespace Transaction

def enlist (t : Transaction κ) (r : Resource κ) : Transaction κ :=
  { t with resources := t.resources ++ [r] }

/-- The outbox, the inbound log, the chunk store, then the resources as enlisted. What the
first three buffer goes with the transaction, so rolling them back does nothing further. -/
def participants (wire : Wire) (t : Transaction κ) : List (Resource κ) :=
  [⟨flush wire t.outbox, pure ()⟩, ⟨discard t.log.commit, pure ()⟩,
    ⟨discard t.chunks.commit, pure ()⟩] ++ t.resources

def commit (wire : Wire) (t : Transaction κ) : Op κ StoreError Unit :=
  Resource.commitAll (t.participants wire)

def rollback (wire : Wire) (t : Transaction κ) : Op κ StoreError Unit :=
  Resource.rollbackAll (t.participants wire)

end Transaction

end Relay
