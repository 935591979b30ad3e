import Relay.Config.Reading
import Relay.Policy
/-!
# Error policies as configured

A policy is written as a record whose `type` field says which policy it is. Turning it into a
policy checks every leaf and every chain on the way up.
-/
namespace Relay

inductive PolicyConfig
  | skip
  | retry (maxFailedAttempts : UInt32) (initialDelay delayIncrement : Nat)
  | move (endpoint : Endpoint) (maxFailedAttempts : UInt32)
  | chain (policies : List PolicyConfig)

namespace PolicyConfig

mutual

def toPolicy : PolicyConfig → Except PolicyError Policy
  | .skip => .ok .skip
  | .retry n initial increment => do
    let p := Policy.retry ⟨n, initial, increment⟩
    p.validate
    return p
  | .move e n => do
    let p := Policy.move e n
    p.validate
    return p
  | .chain cs =>
    match toPolicies cs with
    | .error e => .error e
    | .ok ps => Policy.mkChain ps

def toPolicies : List PolicyConfig → Except PolicyError (List Policy)
  | [] => .ok []
  | c :: cs => do
    let p ← toPolicy c
    let ps ← toPolicies cs
    return p :: ps

end

open Config

/-- The names of the policies. -/
def names : List String := ["skip", "retry", "move", "chain"]

/-- The name of a policy; where `numbered` holds, its number among the names will do. -/
def nameOf (numbered : Bool) : Tree → Option String
  | .text s => some s
  | .int (.ofNat n) => if numbered then names[n]? else none
  | _ => none

/-- The name of the policy and its remaining fields. -/
def tagged? (numbered : Bool) : Tree → Option (String × Tree)
  | .map es => do
    let tag ← (Tree.lookup "type" es).bind (nameOf numbered)
    return (tag, .map es)
  | .list (t :: ts) => (nameOf numbered t).map (·, .list ts)
  | _ => none

/-- Reads a policy of at most the given nesting. The members of a chain may be numbered if the
reading is strict. -/
def read (m : Reading) : Nat → Bool → Tree → Option PolicyConfig
  | 0, _, _ => none
  | depth + 1, numbered, t => do
    let (tag, t) ← tagged? numbered t
    match tag with
    | "skip" =>
      let _ ← fields? .strict [] t
      return .skip
    | "retry" =>
      let es ← fields? .strict ["max_failed_attempts", "initial_delay_ms", "delay_increment_ms"] t
      let n ← required es "max_failed_attempts" word32
      let initial ← field es "initial_delay_ms" 0 (word64 .strict)
      let increment ← field es "delay_increment_ms" 0 (word64 .strict)
      return .retry n initial increment
    | "move" =>
      let es ← fields? .strict ["endpoint", "max_failed_attempts"] t
      let e ← required es "endpoint" (endpointOf .strict)
      let n ← field es "max_failed_attempts" 1 word32
      return .move e n
    | "chain" =>
      let es ← fields? .strict ["policies"] t
      let ps ← required es "policies" (listOf (read m depth (m == .strict)))
      return .chain ps
    | _ => none

def ofTree? (m : Reading) (t : Tree) : Option PolicyConfig := read m t.depth false t

end PolicyConfig

end Relay
