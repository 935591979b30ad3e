import Relay.Script.Behavior
import Relay.Script.Resolver
import Relay.Script.Stage
import Relay.Engine
/-!
# Setting up a scripted application

A setup describes a broker, its publisher and the scripted parts of both. Putting it into
service makes them anew over the world there is; routers report their routes on the way.
-/
namespace Relay.Script

/-- How the publisher and the broker come together. -/
inductive Binding
  | bound
  /-- The broker goes into service without a publisher. -/
  | separate
  deriving DecidableEq, Repr

/-- A behavior of the publisher: a scripted one or a router. -/
inductive Part
  | scripted (b : Behavior)
  | router (routes : List Route)

structure Setup where
  storage : Storage := .memory
  transport : Transport := {}
  connectRetries : Nat := defaultConnectRetries
  wire : Wire
  binding : Binding := .bound
  components : Components := []
  resolvers : Resolvers := .standard
  parts : List Part := []
  handlers : List Handler := []
  stages : List Stage := []

namespace Setup

def pipeline (s : Setup) : Pipeline Note := .create s.wire (s.stages.map Stage.toStage)

/-- The behavior that a part becomes. -/
def behaviorOf (s : Setup) : Part → Relay.Behavior (Scope Note)
  | .scripted b => b.toBehavior
  | .router routes => Router.behavior ⟨s.wire, routes⟩

/-- The publisher that sends through the broker of a number. -/
def publisher (s : Setup) (broker : Nat) : Publisher (Scope Note) :=
  .create (s.parts.map s.behaviorOf) (s.handlers.map Handler.method) s.resolvers s.components broker

/-- The reports of the routers, in order. -/
def routerNotes (s : Setup) : List (Entry Note) :=
  s.parts.filterMap fun p => match p with
    | .router routes => some (.note (.routed routes))
    | .scripted _ => none

def broker (s : Setup) (number : Nat) : Broker Note where
  number := number
  wire := s.wire
  pipeline := s.pipeline
  connectRetries := s.connectRetries
  publisher := if s.binding = .bound then some (s.publisher number) else none

def world (s : Setup) : World Note :=
  { World.create s.storage with transport := s.transport, broker := none }

/-- Puts the broker of a number into service. -/
def install (s : Setup) (number : Nat) (engine : Engine Note) : Engine Note :=
  let world := { engine.world with journal := s.routerNotes.reverse ++ engine.world.journal }
  { engine with world }.install (s.broker number)

end Setup

end Relay.Script
