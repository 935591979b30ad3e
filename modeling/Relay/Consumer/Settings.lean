import Relay.Policy
/-!
# Consumer settings

How many messages a consumer dispatches together, how long it waits for them, and what it does
when a batch fails. Times are milliseconds.
-/
namespace Relay

/-- How many messages are dispatched together. -/
structure BatchSettings where
  /-- One dispatches every message on its own, and so does zero. -/
  size : Nat := 1
  /-- How long a partial batch waits for more messages. -/
  maxWait : Nat := 1000
  deriving DecidableEq, Repr

/-- The largest batch that a worker can make room for. -/
def largestBatch : Nat := Int64.maxValue.toInt.toNat / 80

structure ConsumerSettings where
  batch : BatchSettings := {}
  /-- Without a policy every failure is fatal. -/
  policy : Option Policy := none

namespace ConsumerSettings

def validate (s : ConsumerSettings) : Except PolicyError Unit :=
  match s.policy with
  | none => .ok ()
  | some p => p.validate

end ConsumerSettings

end Relay
