import Relay.Invocation
/-!
# Publishing

Published messages run through an ordered chain of behaviors and then to the subscribed
methods: the exclusive ones in turn, the others side by side. Values that handlers return are
the results; messages they return are published again, all in one further publish.

A handler may publish in turn, and a republished message may be answered by further messages.
`depth` bounds how deep publishes nest; a publish nested deeper panics.
-/
namespace Relay

/-- A stage around dispatch: it is given the number of the broker to send through, the mode, the
rest of the chain and the messages. -/
structure Behavior (σ : Type) where
  index : Int := 0
  handle : Nat → Mode → (List Message → Work σ Published) → List Message → Work σ Published

structure Publisher (σ : Type) where
  behaviors : List (Behavior σ)
  methods : List (Method σ)
  resolvers : Resolvers
  components : Components
  /-- Number of the broker that it sends through. -/
  broker : Nat
  depth : Nat

namespace Publisher

variable {σ : Type}

/-- How deep publishes nest unless told otherwise. -/
def standardDepth : Nat := 100000

/-- A publisher of up to so many methods gathers eagerly; one of more takes results in order. -/
def eagerLimit : Nat := 30

/-- A publisher whose behaviors run by ascending index, equal ones as given. -/
def create (behaviors : List (Behavior σ)) (methods : List (Method σ))
    (resolvers : Resolvers := .standard) (components : Components := []) (broker : Nat := 0)
    (depth : Nat := standardDepth) : Publisher σ :=
  { behaviors := behaviors.mergeSort fun a b => a.index ≤ b.index
    methods, resolvers, components, broker, depth }

def exclusive (p : Publisher σ) : List (Method σ) := p.methods.filter Method.exclusive

def concurrent (p : Publisher σ) : List (Method σ) := p.methods.filter fun m => !m.exclusive

/-- The values among the replies, in order. -/
def values (rs : List Reply) : List Value :=
  rs.filterMap fun r => match r with | .value v => some v | .messages _ => none

/-- The messages among the replies, in order. -/
def republished (rs : List Reply) : List Message :=
  rs.flatMap fun r => match r with | .value _ => [] | .messages ms => ms

/-- Collects the values and publishes the returned messages again with `again`; the results of
that are dropped, its failure is not. -/
def conclude (again : List Message → Work σ Published) (rs : List Reply) : Work σ Published :=
  if (republished rs).isEmpty then .done (.ok (values rs))
  else (again (republished rs)).andThen fun _ => .done (.ok (values rs))

/-- Runs the messages through behaviors and then through `last`. -/
def through (broker : Nat) (mode : Mode) (last : List Message → Work σ Published) :
    List (Behavior σ) → List Message → Work σ Published
  | [] => last
  | b :: bs => b.handle broker mode (through broker mode last bs)

/-- Rounds of waiting after which a blocking publish is given up. -/
def patience : Nat := 1000000

/-- The outcome of a publish that was run to its end on a thread of its own. -/
def joined : Flow.End Published → Published
  | .done r => r
  | .panicked _ => .error (.runtime "publishing thread panicked")
  | .unfinished => .error (.runtime "publishing thread never finished")

/-- The results of one type. -/
def ofType (type : String) (vs : List Value) : List Value := vs.filter fun v => v.typeName == type

variable [TaskState σ]

/-- Hands the messages to the methods. -/
def dispatch (p : Publisher σ) (mode : Mode) (self : Republish σ)
    (again : List Message → Work σ Published) (ms : List Message) : Work σ Published :=
  let invoking := invoke p.resolvers p.components mode self ms
  let others := p.concurrent
  (Flow.inTurn (p.exclusive.map invoking)).andThen fun first =>
    (Flow.sideBySide others.length (p.methods.length ≤ eagerLimit) (others.map invoking)).andThen
      fun rest => conclude again (first ++ rest)

/-- Publishes with `depth` levels of nesting left, sending through the broker of a number. What a
handler publishes itself goes through the latest broker, what it returns through the same one. -/
def execute (p : Publisher σ) (mode : Mode) (broker : Nat) : Nat → List Message → Work σ Published
  | 0, _ => .panicked "publishes nest too deep"
  | depth + 1, ms =>
    if ms.isEmpty then .done (.ok [])
    else
      let self : Republish σ :=
        { publish := fun ms => .act (fun s => (TaskState.latestBroker s, s)) fun latest =>
            p.execute .async latest depth ms
          publishBlocking := fun now ms => onThread fun s =>
            let flow := p.execute .blocking (TaskState.latestBroker s) depth ms
            let r := flow.complete patience now s
            (joined r.1, r.2) }
      through broker mode (p.dispatch mode self (p.execute mode broker depth)) p.behaviors ms

/-- Publishes messages; the result holds the values that handlers returned. -/
def publish (p : Publisher σ) (ms : List Message) : Work σ Published :=
  p.execute .async p.broker p.depth ms

/-- Publishes from synchronous code, to the end, on a thread of its own, from a time on. -/
def publishBlocking (p : Publisher σ) (now : Nat) (ms : List Message) : σ → Published × σ :=
  onThread fun s =>
    let r := (p.execute .blocking p.broker p.depth ms).complete patience now s
    (joined r.1, r.2)

/-- Publishes only if all messages have the kind. -/
def publishKind (p : Publisher σ) (k : Kind) (ms : List Message) : Work σ Published :=
  match ms.find? fun m => !m.hasKind k with
  | some m => .done (.error (.wrongKind m.typeName k))
  | none => p.publish ms

end Publisher

end Relay
