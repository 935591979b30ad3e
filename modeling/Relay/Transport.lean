import Relay.Fault
import Relay.Topic
/-!
# The in-memory transport

Each endpoint name is a topic, made on first use. A subscription first replays the messages not
yet acknowledged and then follows the topic's channel; what the channel dropped is caught up
from the log, so a subscription misses nothing and doubles nothing.
-/
namespace Relay

/-- How subscriptions hand messages on. -/
structure Delivery where
  /-- The stream ends after so many messages. -/
  endAfter : Option Nat := none
  /-- The stream fails after so many messages. -/
  errorAfter : Option Nat := none
  /-- Messages arrive without offset. -/
  stripOffsets : Bool := false
  deriving DecidableEq, Repr

structure Transport where
  topics : List (String × Topic) := []
  /-- Messages a topic's channel holds. -/
  capacity : Nat := 1024
  /-- Subscriptions still to be refused. -/
  failingSubscriptions : Nat := 0
  failOnProduce : Bool := false
  delivery : Delivery := {}
  /-- Topics of the messages produced since the notices were last taken, in order. -/
  notices : List String := []

namespace Transport

def topic? (t : Transport) (name : String) : Option Topic :=
  (t.topics.find? fun e => e.1 == name).map Prod.snd

def topic (t : Transport) (name : String) : Topic := (t.topic? name).getD {}

def putTopic (name : String) (v : Topic) : List (String × Topic) → List (String × Topic)
  | [] => [(name, v)]
  | e :: rest => if e.1 == name then (name, v) :: rest else e :: putTopic name v rest

def setTopic (t : Transport) (name : String) (v : Topic) : Transport :=
  { t with topics := putTopic name v t.topics }

def produced (t : Transport) (name : String) : List RawMessage := (t.topic name).log

def acknowledgedOffsets (t : Transport) (name : String) : List String :=
  (t.topic name).acknowledgedOffsets

def produce (t : Transport) (name : String) (payload : Bytes) (headers : Headers) :
    Except TransportError Transport :=
  if t.failOnProduce then
    .error (.produce ("simulated produce failure on '" ++ name ++ "'"))
  else
    let t := t.setTopic name ((t.topic name).produce t.capacity payload headers)
    .ok { t with notices := t.notices ++ [name] }

def acknowledge (t : Transport) (name : String) (offsets : List String) :
    Except TransportError Transport :=
  match t.topic? name with
  | none => .error (.acknowledge ("unknown topic '" ++ name ++ "'"))
  | some v => .ok (t.setTopic name (v.acknowledge offsets))

end Transport

/-! ## Subscriptions -/

structure Subscription where
  topic : String
  /-- Messages to be handed on before the channel is read again. -/
  queue : List RawMessage
  /-- Position in the channel and in the log of the next live message. -/
  position : Nat
  /-- Messages handed on so far. -/
  delivered : Nat := 0
  /-- The stream has ended. -/
  closed : Bool := false

/-- What a stream yields. -/
inductive Item
  | message (m : RawMessage)
  | failed (e : TransportError)
  | closed

namespace Transport

/-- A new subscription, or the refusal that is due. -/
def subscribe (t : Transport) (name : String) : Except TransportError Subscription × Transport :=
  if 0 < t.failingSubscriptions then
    (.error (.connection ("simulated connection failure on '" ++ name ++ "'")),
      { t with failingSubscriptions := t.failingSubscriptions - 1 })
  else
    let v := t.topic name
    (.ok { topic := name, queue := v.backlog, position := v.channel.sent }, t.setTopic name v)

/-- The messages of a topic's log from a position on. -/
def replay (t : Transport) (name : String) (position count : Nat) : List RawMessage :=
  ((t.topic name).log.drop position).take count

/-- The next message of a subscription, nothing while there is none. -/
def pull (t : Transport) (s : Subscription) : Option RawMessage × Subscription :=
  match s.queue with
  | m :: queue => (some m, { s with queue })
  | [] =>
    match (t.topic s.topic).channel.receive s.position with
    | .nothing => (none, s)
    | .message m => (some m, { s with position := s.position + 1 })
    | .missed count =>
      match t.replay s.topic s.position count with
      | m :: queue => (some m, { s with queue, position := s.position + count })
      | [] => (none, { s with position := s.position + count })

def strip (d : Delivery) (m : RawMessage) : RawMessage :=
  if d.stripOffsets then { m with offset := none } else m

/-- What the stream of a subscription yields next, nothing while it has to wait. -/
def next (t : Transport) (s : Subscription) : Option Item × Subscription :=
  if s.closed then (some .closed, s)
  else if t.delivery.endAfter = some s.delivered then (some .closed, { s with closed := true })
  else if t.delivery.errorAfter = some s.delivered then
    (some (.failed (.consume "stream broke")), { s with closed := true })
  else
    match t.pull s with
    | (some m, s) => (some (.message (strip t.delivery m)), { s with delivered := s.delivered + 1 })
    | (none, s) => (none, s)

end Transport

end Relay
