import Relay.Endpoint
/-!
# Error policies

When an inbound batch fails, its consumer asks the policy what to do, given how often the batch
has failed. A chain asks its members in order and follows the first that takes charge; chains
nest, and `flatten` lists the members of a nested chain in order.

Delays are whole milliseconds, the unit of configured policies and of the clock. A policy built in
code may be given a finer delay, down to the nanosecond, which is left out here: what a policy
decides does not depend on how long a delay is. A duration holds whole seconds in 64 bits, so
computing a delay can overflow, which `Overflow` tells.
-/
namespace Relay

/-- Delays are in milliseconds. -/
structure RetryPolicy where
  maxFailedAttempts : UInt32
  initialDelay : Nat := 0
  delayIncrement : Nat := 0
  deriving DecidableEq, Repr

inductive Policy
  | skip
  | retry (p : RetryPolicy)
  | move (endpoint : Endpoint) (maxFailedAttempts : UInt32)
  | chain (members : List Policy)
  deriving Repr

/-- Decision for a failed batch. -/
inductive Action
  /-- Process the same batch again after the delay. -/
  | retry (delay : Nat)
  /-- Acknowledge and drop. -/
  | skip
  /-- Forward the messages to another endpoint, then acknowledge. -/
  | move (endpoint : Endpoint)
  /-- Stop the consumer. -/
  | fatal
  deriving DecidableEq, Repr

inductive PolicyError
  | emptyChain
  | notLast (policy : String)
  | zeroAttempts
  deriving DecidableEq, Repr

def PolicyError.message : PolicyError → String
  | .emptyChain => "Error policy chain is empty"
  | .notLast p => p ++ " must be the last policy in a chain"
  | .zeroAttempts => "max_failed_attempts must be at least 1"

/-- A delay that no duration can hold. -/
inductive Overflow
  | scaling
  | adding
  deriving DecidableEq, Repr

def Overflow.message : Overflow → String
  | .scaling => "overflow when multiplying duration by scalar"
  | .adding => "overflow when adding durations"

/-- The milliseconds below which a duration's seconds fit in 64 bits. -/
def durationLimit : Nat := 1000 * UInt64.size

namespace RetryPolicy

/-- Delay before a retry, counted from one: the initial delay plus an increment for each retry
before it. -/
def delay (p : RetryPolicy) (attempt : UInt32) : Except Overflow Nat :=
  let extra := p.delayIncrement * (attempt.toNat - 1)
  if durationLimit ≤ extra then .error .scaling
  else if durationLimit ≤ p.initialDelay + extra then .error .adding
  else .ok (p.initialDelay + extra)

end RetryPolicy

namespace Policy

mutual

/-- The members of a policy, with every nested chain replaced by its members. -/
def flatten : Policy → List Policy
  | .chain ps => flattenAll ps
  | p => [p]

def flattenAll : List Policy → List Policy
  | [] => []
  | p :: ps => flatten p ++ flattenAll ps

end

/-- Whether the policy on its own has room for an attempt. -/
def validateLeaf : Policy → Except PolicyError Unit
  | .retry p => if p.maxFailedAttempts = 0 then .error .zeroAttempts else .ok ()
  | .move _ n => if n = 0 then .error .zeroAttempts else .ok ()
  | _ => .ok ()

/-- The policies that end a chain may only stand last in it. -/
def validatePlace (last : Bool) : Policy → Except PolicyError Unit
  | .skip => if last then .ok () else .error (.notLast "Skip")
  | .move .. => if last then .ok () else .error (.notLast "Move")
  | _ => .ok ()

/-- Checks the members of a flat chain in order, at each its limit before its place. -/
def validateMembers : List Policy → Except PolicyError Unit
  | [] => .ok ()
  | p :: ps => do
    validateLeaf p
    validatePlace ps.isEmpty p
    validateMembers ps

def validate : Policy → Except PolicyError Unit
  | .chain ps =>
    match flattenAll ps with
    | [] => .error .emptyChain
    | flat => validateMembers flat
  | p => validateLeaf p

/-- The flat chain of the given policies, if it is valid. -/
def mkChain (ps : List Policy) : Except PolicyError Policy := do
  validate (.chain (flattenAll ps))
  return .chain (flattenAll ps)

mutual

/-- Whether the policy takes charge after so many failures. -/
def canHandle (n : UInt32) : Policy → Bool
  | .skip => true
  | .retry p => n < p.maxFailedAttempts
  | .move .. => true
  | .chain ps => canHandleAny n ps

def canHandleAny (n : UInt32) : List Policy → Bool
  | [] => false
  | p :: ps => canHandle n p || canHandleAny n ps

end

mutual

/-- What to do after the batch has failed `n` times. -/
def decide (n : UInt32) : Policy → Except Overflow Action
  | .skip => .ok .skip
  | .retry p => if n < p.maxFailedAttempts then (p.delay n).map .retry else .ok .fatal
  | .move e limit => .ok (if n < limit then .retry 0 else .move e)
  | .chain ps => decideFirst n ps

/-- The decision of the first member that takes charge. -/
def decideFirst (n : UInt32) : List Policy → Except Overflow Action
  | [] => .ok .fatal
  | p :: ps => if canHandle n p then decide n p else decideFirst n ps

end

/-- No policy means that every failure is fatal. -/
def decideWith (p : Option Policy) (n : UInt32) : Except Overflow Action :=
  match p with
  | none => .ok .fatal
  | some p => p.decide n

end Policy

end Relay
