import Relay.Script.Handler
/-!
# Scripted behaviors

A publisher behavior that reports what passes through it, and may change, stop or fail it.
-/
namespace Relay.Script

/-- What a behavior does to a publish. -/
inductive Conduct
  | pass
  /-- Answers with a number instead of going on. -/
  | short (n : UInt32)
  | fail
  /-- Fails once the rest of the chain has succeeded. -/
  | failAfter
  /-- Lets even messages through only. -/
  | even
  | append (ms : List Message)
  | reverse
  /-- Adds its name to the results. -/
  | addResult
  | dropResults

structure Behavior where
  name : String
  index : Int := 0
  conduct : Conduct

namespace Conduct

/-- The messages handed on. -/
def onward : Conduct → List Message → List Message
  | .even, ms => ms.filter isEven
  | .append more, ms => ms ++ more
  | .reverse, ms => ms.reverse
  | _, ms => ms

/-- What becomes of the results of the rest of the chain. -/
def outcome (name : String) : Conduct → List Value → Published
  | .failAfter, _ => .error (.behavior (name ++ " refused"))
  | .addResult, vs => .ok (vs ++ [.text name])
  | .dropResults, _ => .ok []
  | _, vs => .ok vs

/-- The answer of a behavior that does not go on. -/
def instead? (name : String) : Conduct → Option Published
  | .short n => some (.ok [.number n])
  | .fail => some (.error (.behavior (name ++ " refused")))
  | _ => none

end Conduct

/-- The behavior that follows the script. -/
def Behavior.toBehavior (b : Behavior) : Relay.Behavior (Scope Note) where
  index := b.index
  handle _ mode next ms :=
    .modify (Scope.note (.entered b.name mode ms)) <|
      match b.conduct.instead? b.name with
      | some answer => .done answer
      | none => (next (b.conduct.onward ms)).andThen fun vs =>
        .modify (Scope.note (.left b.name vs)) (.done (b.conduct.outcome b.name vs))

end Relay.Script
