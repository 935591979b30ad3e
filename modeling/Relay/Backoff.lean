/-!
# Retries of transient failures

An operation is called until it succeeds, fails for good, or the backoff has no delay left.
`Backoff.verdict` says what follows an outcome; `Backoff.run` follows the verdicts over a script
of outcomes and keeps the time of every call.
-/
namespace Relay

/-- How long to wait before each further call, for as long as there are delays. -/
structure Backoff where
  /-- The number of delays, unlimited without one. -/
  maxTimes : Option Nat
  /-- Milliseconds between call `i` and the next, counted from zero. -/
  delay : Nat → Nat

namespace Backoff

def constant (ms : Nat) (maxTimes : Option Nat) : Backoff := ⟨maxTimes, fun _ => ms⟩

/-- Delays that double from `low` up to `high`. -/
def doubling (low high : Nat) (i : Nat) : Nat := min high (low <<< min i 64)

def exponential (low high : Nat) (maxTimes : Option Nat) : Backoff := ⟨maxTimes, doubling low high⟩

/-- The delays between subscribe calls, before jitter is added to them. -/
def connectionDelay : Nat → Nat := doubling 100 5000

def connection (maxTimes : Nat) : Backoff := ⟨some maxTimes, connectionDelay⟩

def delay? (b : Backoff) (i : Nat) : Option Nat :=
  match b.maxTimes with
  | none => some (b.delay i)
  | some n => if i < n then some (b.delay i) else none

end Backoff

/-- How a call ended. -/
inductive Outcome (ε α : Type)
  | success (a : α)
  | transient (e : ε)
  | permanent (e : ε)

/-- What follows a call. -/
inductive Verdict (ε α : Type)
  | finished (r : Except ε α)
  | sleep (ms : Nat)

namespace Backoff

variable {ε α : Type}

/-- After call `i`, counted from zero: a transient failure waits while there is a delay. -/
def verdict (b : Backoff) (i : Nat) : Outcome ε α → Verdict ε α
  | .success a => .finished (.ok a)
  | .permanent e => .finished (.error e)
  | .transient e =>
    match b.delay? i with
    | some ms => .sleep ms
    | none => .finished (.error e)

/-- A run of calls: when each was made, and how the last one ended, nothing if the script of
outcomes ended before the run did. -/
structure Calls (ε α : Type) where
  times : List Nat
  result : Option (Except ε α)

/-- Runs the calls from number `i` at time `now`, over the outcomes they have. -/
def run (b : Backoff) (now i : Nat) : List (Outcome ε α) → Calls ε α
  | [] => ⟨[], none⟩
  | o :: os =>
    match b.verdict i o with
    | .finished r => ⟨[now], some r⟩
    | .sleep ms =>
      let rest := run b (now + ms) (i + 1) os
      ⟨now :: rest.times, rest.result⟩

/-- A script whose last outcome repeats for as long as there are delays. -/
def prolong (b : Backoff) (script : List (Outcome ε α)) : List (Outcome ε α) :=
  script ++ script.getLast?.toList.flatMap (List.replicate (b.maxTimes.getD 0))

/-- Runs the calls over a script, prolonged if it ends before the run does. -/
def replay (b : Backoff) (script : List (Outcome ε α)) : Calls ε α :=
  let calls := b.run 0 0 script
  if calls.result.isSome then calls else b.run 0 0 (b.prolong script)

end Backoff

end Relay
