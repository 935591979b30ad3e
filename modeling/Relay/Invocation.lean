import Relay.Resolver
/-!
# Invoking a method

A method is invoked with the messages of a publish it selects: those its filters let through,
taken out of their envelopes unless it asks for envelopes, and of the type it accepts. It is
not called at all when there are none.
-/
namespace Relay

variable {σ : Type}

/-- What a method that accepts the type gets to see of a message. -/
def unwrapFor (t : MessageType) (m : Message) : Option Message :=
  if t.isEnvelope then some m else m.unwrap

/-- The messages that a method accepting the type selects. -/
def select (method : Method σ) (t : MessageType) (ms : List Message) : List Message :=
  ((ms.filter method.accepts).filterMap (unwrapFor t)).filter t.matchesMessage

/-- The component a method is declared on. -/
def resolveTarget (method : Method σ) (cs : Components) :
    Except ConfigurationError (Option Value) :=
  match method.target with
  | none => .ok none
  | some t =>
    match cs.resolve t with
    | some v => .ok (some v)
    | none => .error (.unresolvedTarget method.name t)

/-- The calls a method is invoked with, none if it selects no message. -/
def calls (r : Resolvers) (cs : Components) (method : Method σ) (ms : List Message) :
    Except ConfigurationError (List Call) := do
  let resolver ← r.messageResolver method.name method.parameter
  let selected := select method (resolver.messageType method.parameter) ms
  if selected.isEmpty then return []
  let target ← resolveTarget method cs
  let further ← r.furtherArguments method.name cs method.further
  return (resolver.arguments selected).map fun a => ⟨a, further, target⟩

/-- The outcome of a call as the publish sees it; no reply counts as no result. -/
def outcome (method : Method σ) : Answer → Except PublishError (List Reply)
  | .ok none => .ok []
  | .ok (some r) => .ok [r]
  | .error reason => .error (.handler method.name reason)

variable [TaskState σ]

/-- Runs one call. The pool is another thread, and a panic there is a failure of the call; in
the task itself it unwinds. -/
def callOnce (mode : Mode) (self : Republish σ) (method : Method σ) (c : Call) :
    Work σ (Except PublishError (List Reply)) :=
  match method.handler with
  | .async run => (run c self).bind fun a => .done (outcome method a)
  | .blocking run => .clock fun now =>
    match mode with
    | .async => .act (onThread (run now c self)) fun r =>
      match r with
      | .answered a => .done (outcome method a)
      | .panicked _ => .done (.error (.handlerPanicked method.name))
    | .blocking => .act (run now c self) fun r =>
      match r with
      | .answered a => .done (outcome method a)
      | .panicked text => .panicked text

/-- Runs the calls of a method, its replies joined in the order of the calls. -/
def invoke (r : Resolvers) (cs : Components) (mode : Mode) (self : Republish σ)
    (ms : List Message) (method : Method σ) : Work σ (Except PublishError (List Reply)) :=
  match calls r cs method ms with
  | .error e => .done (.error (.configuration e))
  | .ok calls =>
    let flows := calls.map (callOnce mode self method)
    if method.parallel && 1 < calls.length then
      Flow.sideBySide (max 1 (method.maxDegree.getD calls.length)) false flows
    else Flow.inTurn flows

end Relay
