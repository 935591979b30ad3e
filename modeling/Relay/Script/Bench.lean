import Relay.Script.Setup
/-!
# The bench

A bench runs a scripted application step by step: it publishes and produces, brings consumers
up and down, lets time pass, reads the transport, and drives transactions by hand. It hands out
what the journal got since it was last read.
-/
namespace Relay.Script

/-- A value under a name, in its place if the name is there. -/
def setNamed {α : Type} (name : String) (a : α) : List (String × α) → List (String × α)
  | [] => [(name, a)]
  | e :: rest => if e.1 == name then (name, a) :: rest else e :: setNamed name a rest

def getNamed {α : Type} (name : String) (es : List (String × α)) : Option α :=
  (es.find? fun e => e.1 == name).map Prod.snd

/-- The place of an element in a list it is added to unless it is there. -/
def place {α : Type} [DecidableEq α] (a : α) (as : List α) : Nat × List α :=
  match as.idxOf? a with
  | some i => (i, as)
  | none => (as.length, as ++ [a])

structure Bench where
  setup : Setup
  engine : Engine Note
  /-- Number of the broker last put into service. -/
  number : Nat := 0
  /-- Open transactions by name. -/
  transactions : List (String × Transaction Note) := []
  /-- Open subscriptions by name. -/
  streams : List (String × Subscription) := []
  /-- Consumers by order of first appearance. -/
  consumers : List Nat := []
  /-- Producers by order of first appearance. -/
  producers : List Endpoint := []
  /-- How much of the journal was read. -/
  reported : Nat := 0

namespace Bench

def create (s : Setup) : Bench := { setup := s, engine := s.install 0 { world := s.world } }

def publisher (b : Bench) : Publisher (Scope Note) := b.setup.publisher b.number

/-- What the journal got since it was last read, oldest first. -/
def report (b : Bench) : List (Entry Note) × Bench :=
  let journal := b.engine.world.journal
  ((journal.take (journal.length - b.reported)).reverse, { b with reported := journal.length })

def onEngine.{u} {α : Type u} (b : Bench) (f : Engine Note → α × Engine Note) : α × Bench :=
  let r := f b.engine
  (r.1, { b with engine := r.2 })

def change (b : Bench) (f : Engine Note → Engine Note) : Bench := { b with engine := f b.engine }

def changeTransport (b : Bench) (f : Transport → Transport) : Bench :=
  b.change fun s => { s with world := { s.world with transport := f s.world.transport } }

/-- Adds a failure rule behind those there are. -/
def addRule (b : Bench) (r : Rule) : Bench :=
  b.change fun s => { s with world.rules := s.world.rules ++ [r] }

def clearRules (b : Bench) : Bench := b.change fun s => { s with world.rules := [] }

def onWorld {ε α : Type} (b : Bench) (o : Op Note ε α) : Except ε α × Bench :=
  b.onEngine fun s => s.onWorld o

/-! ## The broker's life -/

def forget (b : Bench) : Bench := { b with consumers := [], producers := [] }

/-- Lets go of the broker. -/
def dropBroker (b : Bench) : Bench := (b.change Engine.dropBroker).forget

/-- Replaces the broker and the publisher by new ones. -/
def restart (b : Bench) : Bench :=
  let b := { b.dropBroker with number := b.number + 1 }
  b.change (b.setup.install b.number)

/-- Binds the publisher to the broker. -/
def bindPublisher (b : Bench) : Except BrokerError Unit × Bench :=
  b.onEngine (Engine.bindPublisher b.publisher)

/-- A consumer and its place by first appearance. -/
def getConsumer (b : Bench) (e : Endpoint) (cs : ConsumerSettings) :
    Except BrokerError (Option (Consumer Note × Nat)) × Bench :=
  match b.onEngine (Engine.getConsumer e cs) with
  | (.error err, b) => (.error err, b)
  | (.ok none, b) => (.ok none, b)
  | (.ok (some c), b) =>
    let (i, consumers) := place c.id b.consumers
    (.ok (some (c, i)), { b with consumers })

def connectConsumer (b : Bench) (i : Nat) : Except TransportError Unit × Bench :=
  match b.consumers[i]? with
  | none => (.ok (), b)
  | some id => b.onEngine (Engine.connectConsumer id)

def disconnectConsumer (b : Bench) (i : Nat) : Bench :=
  match b.consumers[i]? with
  | none => b
  | some id => b.change (Engine.disconnectConsumer id)

/-- A producer's place by first appearance, and how many the broker has. -/
def getProducer (b : Bench) (e : Endpoint) : (Nat × Nat) × Bench :=
  let b := b.change (Engine.useProducer b.number e)
  let (i, producers) := place e b.producers
  ((i, b.engine.world.producers.length), { b with producers })

/-! ## Publishing -/

/-- The ways to publish. -/
inductive Manner
  | all
  /-- Only the first message, without results. -/
  | one
  | ofType (type : String)
  | blocking
  | blockingOfType (type : String)
  | kind (k : Kind)
  /-- Only the first message. -/
  | kindOne (k : Kind)
  /-- Only the first message, for the first result of a type. -/
  | query (type : String)

namespace Manner

def isBlocking : Manner → Bool
  | .blocking => true
  | .blockingOfType _ => true
  | _ => false

/-- The messages that are published. -/
def messages : Manner → List Message → List Message
  | .one, ms => ms.take 1
  | .kindOne _, ms => ms.take 1
  | .query _, ms => ms.take 1
  | _, ms => ms

/-- The kind that all messages have to have. -/
def kind? : Manner → Option Kind
  | .kind k => some k
  | .kindOne k => some k
  | .query _ => some .query
  | _ => none

/-- The results that are kept. -/
def keep : Manner → List Value → List Value
  | .one, _ => []
  | .ofType t, vs => Publisher.ofType t vs
  | .blockingOfType t, vs => Publisher.ofType t vs
  | .query t, vs => (Publisher.ofType t vs).take 1
  | _, vs => vs

def flow (m : Manner) (p : Publisher (Scope Note)) (ms : List Message) :
    Work (Scope Note) Published :=
  match m.kind? with
  | some k => p.publishKind k (m.messages ms)
  | none => p.publish (m.messages ms)

end Manner

/-- Publishes in a manner, within the scope of an outbox if one is given. A publish from
synchronous code runs on a thread of its own, where no outbox is current. -/
def publish (b : Bench) (m : Manner) (outbox : Option (List Outgoing)) (ms : List Message) :
    Engine.Finished Published × Bench :=
  if m.isBlocking then
    let (r, b) := b.onEngine (Engine.publishBlocking b.publisher (m.messages ms))
    (⟨.done (r.map m.keep), outbox⟩, b)
  else
    let (r, b) := b.onEngine (Engine.publishWithin outbox (m.flow b.publisher ms))
    match r.result with
    | .done r' => (⟨.done (r'.map m.keep), r.outbox⟩, b)
    | _ => (r, b)

/-! ## Producing -/

def produce (b : Bench) (o : Outgoing) : Except ProduceError String × Bench :=
  (b.change (Engine.useProducer b.number o.endpoint)).onWorld (World.send b.setup.wire o)

/-- Produces bytes as they are. -/
def produceRaw (b : Bench) (e : Endpoint) (payload : Bytes) (h : Headers) :
    Except TransportError Unit × Bench :=
  (b.change (Engine.useProducer b.number e)).onWorld (World.produce e payload h)

/-- Appends copies of everything a topic holds, past the failure rules. -/
def redeliver (b : Bench) (topic : String) : Bench :=
  (b.engine.world.transport.produced topic).foldl (fun b m =>
    let again : Op Note TransportError Unit := fun w =>
      match w.transport.produce topic m.payload m.headers with
      | .ok transport => .ok () { w with transport }
      | .error e => .error e w
    (b.onWorld again).2) b

/-! ## Time -/

/-- Looks every millisecond whether so many offsets of a topic are acknowledged. -/
def watch (topic : String) (count : Nat) : Nat → Bench → Bench
  | 0, b => b
  | rounds + 1, b =>
    if count ≤ (b.engine.world.transport.acknowledgedOffsets topic).length then b
    else watch topic count rounds (b.change (Engine.pass 1))

/-- How often a wait looks before it gives up. -/
def patience : Nat := 1000000

/-- Waits until so many offsets of a topic are acknowledged. -/
def waitAcknowledged (b : Bench) (topic : String) (count : Nat) : Bench :=
  watch topic count patience b

/-! ## Subscriptions -/

def subscribe (b : Bench) (topic stream : String) : Except TransportError Unit × Bench :=
  match b.onWorld (World.subscribe { name := topic }) with
  | (.error e, b) => (.error e, b)
  | (.ok s, b) => (.ok (), { b with streams := setNamed stream s b.streams })

def unsubscribe (b : Bench) (stream : String) : Bool × Bench :=
  ((getNamed stream b.streams).isSome,
    { b with streams := b.streams.filter fun e => e.1 != stream })

/-- How long a read waits for a message, in milliseconds. -/
def readWait : Nat := 1000

/-- The next item of a stream, nothing if none comes in time. -/
def next (b : Bench) (stream : String) : Option Item × Bench :=
  match getNamed stream b.streams with
  | none => (none, b)
  | some s =>
    match b.engine.world.transport.next s with
    | (some i, s) => (some i, { b with streams := setNamed stream s b.streams })
    | (none, s) =>
      let b := b.change (Engine.pass readWait)
      let (i, s) := b.engine.world.transport.next s
      (i, { b with streams := setNamed stream s b.streams })

/-- Reads a stream so many times. -/
def take (stream : String) : Nat → Bench → List (Option Item) × Bench
  | 0, b => ([], b)
  | n + 1, b =>
    let (i, b) := b.next stream
    let (is, b) := take stream n b
    (i :: is, b)

/-! ## Transactions by hand -/

def begin (b : Bench) (tx : String) : Bench :=
  { b with transactions := setNamed tx {} b.transactions }

def transaction (b : Bench) (tx : String) : Transaction Note :=
  (getNamed tx b.transactions).getD {}

def setTransaction (b : Bench) (tx : String) (t : Transaction Note) : Bench :=
  { b with transactions := setNamed tx t b.transactions }

/-- Runs a step of inbound processing within a transaction. -/
def within {α : Type} (b : Bench) (tx : String) (o : Inbound Note α) :
    Except InboundError α × Bench :=
  match o ⟨b.transaction tx, b.engine.world⟩ with
  | .ok a s => (.ok a, { b with engine.world := s.world }.setTransaction tx s.transaction)
  | .error e s => (.error e, { b with engine.world := s.world }.setTransaction tx s.transaction)

/-- Runs one received message through the inbound pipeline. -/
def process (b : Bench) (tx : String) (endpoint : Endpoint) (m : RawMessage) :
    Except InboundError (Option Message) × Bench :=
  b.within tx do
    let raw ← Inbound.ofExcept .envelope (RawEnvelope.ofMessage endpoint m)
    b.setup.pipeline.process raw

/-- Publishes within the scope of the transaction's outbox. -/
def publishIn (b : Bench) (tx : String) (m : Manner) (ms : List Message) :
    Engine.Finished Published × Bench :=
  let t := b.transaction tx
  let (r, b) := b.publish m (some t.outbox) ms
  (r, b.setTransaction tx { t with outbox := r.outbox.getD [] })

/-- Ends a transaction by its commit or its rollback. -/
def conclude (b : Bench) (tx : String) (f : Transaction Note → Op Note StoreError Unit) :
    Except StoreError Unit × Bench :=
  let t := b.transaction tx
  { b with transactions := b.transactions.filter fun e => e.1 != tx }.onWorld (f t)

def commit (b : Bench) (tx : String) : Except StoreError Unit × Bench :=
  b.conclude tx fun t => t.commit b.setup.wire

def rollback (b : Bench) (tx : String) : Except StoreError Unit × Bench :=
  b.conclude tx fun t => t.rollback b.setup.wire

end Bench

end Relay.Script
