import Relay.World
/-!
# Inbound log sessions

The entries a transaction adds to the inbound log, buffered until it commits; lookups see them.
-/
namespace Relay

structure LogSession where
  pending : List LogEntry := []

namespace LogSession

variable {κ : Type}

/-- Whether the message was committed earlier or added in this session. -/
def contains (s : LogSession) (id endpoint : String) : Op κ StoreError Bool :=
  if s.pending.contains ⟨id, endpoint⟩ then pure true else World.logContains id endpoint

def add (s : LogSession) (e : LogEntry) : LogSession := ⟨s.pending ++ [e]⟩

/-- Appends what is pending; the session starts afresh. One whose commit fails keeps its
entries. -/
def commit (s : LogSession) : Op κ StoreError LogSession := do
  unless s.pending.isEmpty do World.logAppend s.pending
  return {}

/-- Forgets what is pending. -/
def rollback (_ : LogSession) : LogSession := {}

end LogSession

end Relay
