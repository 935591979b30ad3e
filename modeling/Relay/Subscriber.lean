import Relay.Component
import Relay.Flow
import Relay.Publish.Error
/-!
# Subscribed methods

A method binds a handler to the messages it accepts and to further parameters filled at
dispatch. Exclusive methods run one after the other, the others side by side; a parallel method
handles several messages at once.
-/
namespace Relay

/-- A state of which a part belongs to the running task. -/
class TaskState (σ : Type) where
  /-- The state as another thread sees it. -/
  elsewhere : σ → σ
  /-- The task's state once it goes on after another thread. -/
  resume (task other : σ) : σ
  /-- Number of the broker that was put into service last. -/
  latestBroker : σ → Nat

/-- Runs a change on another thread, the task waiting for it. -/
def onThread {σ α : Type} [TaskState σ] (f : σ → α × σ) (s : σ) : α × σ :=
  let r := f (TaskState.elsewhere s)
  (r.1, TaskState.resume s r.2)

/-- How synchronous handlers are run: inline, or on a pool and awaited. -/
inductive Mode
  | async
  | blocking
  deriving DecidableEq, Repr

inductive Parameter
  /-- One message a call. -/
  | message (t : MessageType)
  /-- All matching messages in one call. -/
  | messages (t : MessageType)
  /-- A component looked up by type. -/
  | service (type : String)
  /-- Understood only by a resolver for it. -/
  | custom (name : String)
  deriving DecidableEq, Repr

def Parameter.display : Parameter → String
  | .message t => t.display
  | .messages t => "[" ++ t.display ++ "]"
  | .service t => "service " ++ t
  | .custom n => "custom " ++ n

/-- How messages are passed to one call. -/
inductive Argument
  | single (m : Message)
  | batch (ms : List Message)

namespace Argument

def messages : Argument → List Message
  | .single m => [m]
  | .batch ms => ms

def single? : Argument → Option Message
  | .single m => some m
  | .batch _ => none

end Argument

/-- The arguments of one call of a handler. -/
structure Call where
  argument : Argument
  /-- Further arguments in declared order, nothing where the resolver had no value. -/
  further : List (Option Value)
  target : Option Value

/-- What a handler has returned. -/
inductive Reply
  | value (v : Value)
  /-- Messages to be published again. -/
  | messages (ms : List Message)

/-- What a handler answers: a failure, nothing, or a reply. -/
abbrev Answer := Except String (Option Reply)

abbrev Work (σ α : Type) := Flow σ PublishError Reply α

abbrev Published := Except PublishError (List Value)

/-- What a handler can do with the publisher, which sends through the latest broker then. -/
structure Republish (σ : Type) where
  /-- Publishes as part of the running publish. -/
  publish : List Message → Work σ Published
  /-- Publishes to the end while everything else stands still, from a time on. -/
  publishBlocking : Nat → List Message → σ → Published × σ

/-- How a synchronous handler ended. -/
inductive Returned
  | answered (a : Answer)
  | panicked (text : String)

inductive Handler (σ : Type)
  | async (run : Call → Republish σ → Work σ Answer)
  /-- Also given the time of the call. -/
  | blocking (run : Nat → Call → Republish σ → σ → Returned × σ)

structure Method (σ : Type) where
  name : String
  handler : Handler σ
  parameter : Parameter := .message .any
  further : List Parameter := []
  /-- The type of the component the method is declared on. -/
  target : Option String := none
  exclusive : Bool := true
  parallel : Bool := false
  /-- Calls running at once in a parallel method, unlimited without a number. -/
  maxDegree : Option Nat := none
  filters : List (Message → Bool) := []

/-- Whether all filters let the message through. -/
def Method.accepts {σ : Type} (m : Method σ) (msg : Message) : Bool := m.filters.all fun f => f msg

end Relay
