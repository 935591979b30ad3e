import Relay.Producer
import Relay.Publisher
/-!
# Publishing scopes

A publish runs over the world and, while a consumer dispatches a batch, the outbox of the
batch's transaction. The outbox belongs to the dispatching task: on other threads none is
current.
-/
namespace Relay

structure Scope (κ : Type) where
  world : World κ
  /-- The outbox of the batch being dispatched, none outside a consumer. -/
  outbox : Option (List Outgoing) := none

namespace Scope

variable {κ : Type}

def mapWorld (f : World κ → World κ) (s : Scope κ) : Scope κ := { s with world := f s.world }

/-- Adds a note to the journal. -/
def note (k : κ) : Scope κ → Scope κ :=
  mapWorld fun w => { w with journal := .note k :: w.journal }

instance : TaskState (Scope κ) where
  elsewhere s := { s with outbox := none }
  resume task other := { other with outbox := task.outbox }
  latestBroker s := s.world.latest

end Scope

end Relay
