import Relay.Broker
/-!
# The running engine

Workers, publishes and the broker's own operations share one thread and one clock. The workers
that can go on stand in a queue and run in turn, each until it waits; the time stands still
while any of them can run, and then jumps to the next deadline. A message wakes the workers
that wait for its topic, in the order in which they began to wait.

`pass` lets time go by for whoever waits outside, `publish` runs a publish beside the workers,
`connect` and `disconnect` are the broker's lifecycle. Workers whose broker is gone run on as
`orphans` that nobody can cancel any more.

How long a consumer waits between two subscribe calls is partly left to chance, and so the engine is
given it (`delays`). How often it waits is not.
-/
namespace Relay

variable {κ : Type}

structure Engine (κ : Type) where
  now : Nat := 0
  world : World κ
  broker : Option (Broker κ) := none
  /-- Consumers whose broker is gone. -/
  orphans : List (Consumer κ) := []
  /-- Consumers whose workers can go on, next first. -/
  queue : List Nat := []
  /-- Consumers whose workers wait for messages, longest first. -/
  waiters : List Nat := []
  /-- Id of the next consumer. -/
  nextId : Nat := 0
  /-- The milliseconds that the consumer of the id waits after each of its subscribe calls, when it
  begins to connect at the time. -/
  delays : (id now : Nat) → Nat → Nat := fun _ _ => Backoff.connectionDelay

namespace Engine

/-- Steps a worker may take before others get their turn. -/
def stride : Nat := 1000000

/-- Turns of workers at one instant, or instants in one wait, before the engine is given up. -/
def patience : Nat := 1000000

def consumers (s : Engine κ) : List (Consumer κ) :=
  ((s.broker.map Broker.consumers).getD []) ++ s.orphans

def consumer? (s : Engine κ) (id : Nat) : Option (Consumer κ) :=
  s.consumers.find? fun c => c.id == id

def replace (s : Engine κ) (c : Consumer κ) : Engine κ :=
  { s with
    broker := s.broker.map fun b => { b with consumers := c.replace b.consumers }
    orphans := c.replace s.orphans }

/-- Puts a consumer's worker at the end of the queue unless it stands there. -/
def wake (id : Nat) (s : Engine κ) : Engine κ :=
  if s.queue.contains id then s else { s with queue := s.queue ++ [id] }

/-- Whether a consumer waits for messages of a topic. -/
def listensTo (s : Engine κ) (topic : String) (id : Nat) : Bool :=
  match s.consumer? id with
  | some c => c.endpoint.name == topic
  | none => false

/-- Wakes the workers that wait for a topic. -/
def notify (s : Engine κ) (topic : String) : Engine κ :=
  let (woken, waiters) := s.waiters.partition (s.listensTo topic)
  woken.foldl (fun s id => s.wake id) { s with waiters }

/-- Wakes the workers whose topics have got messages. -/
def notifyAll (s : Engine κ) : Engine κ :=
  let topics := s.world.transport.notices
  let s := { s with world := { s.world with
    transport := { s.world.transport with notices := [] } } }
  topics.foldl notify s

/-- Marks a consumer's worker as waiting for messages. -/
def await (id : Nat) (s : Engine κ) : Engine κ :=
  if s.waiters.contains id then s else { s with waiters := s.waiters ++ [id] }

/-- Runs the worker of a consumer until it waits. -/
def runWorker (s : Engine κ) (id : Nat) : Engine κ :=
  match s.consumer? id with
  | none => s
  | some c =>
    match c.worker with
    | none => s
    | some w =>
      let (w, world) := w.run stride s.now s.world
      let s := { s with world }.replace { c with worker := some w }
      (if w.listens then s.await id else s).notifyAll

/-- Runs the workers in the queue until it is empty. -/
def drain : Nat → Engine κ → Engine κ
  | 0, s => s
  | turns + 1, s =>
    match s.queue with
    | [] => s
    | id :: queue => drain turns ({ s with queue }.runWorker id)

/-- Lets every worker that can go on run. -/
def settle (s : Engine κ) : Engine κ := drain patience s.notifyAll

/-! ## Time -/

/-- The deadlines of the workers that wait for one. -/
def deadlines (s : Engine κ) : List (Nat × Nat) :=
  s.consumers.filterMap fun c => (c.worker.bind Worker.nextWake).map (·, c.id)

def nextDeadline (s : Engine κ) : Option Nat :=
  (s.deadlines.map Prod.fst).min?

/-- Moves the clock and wakes the workers whose deadlines have come, earliest first. -/
def advance (t : Nat) (s : Engine κ) : Engine κ :=
  let s := { s with now := max s.now t }
  let due := (s.deadlines.filter fun d => d.1 ≤ s.now).mergeSort fun a b => a.1 ≤ b.1
  due.foldl (fun s d => s.wake d.2) s

/-- Runs workers until a time, which comes last. -/
def runUntil (limit : Nat) : Nat → Engine κ → Engine κ
  | 0, s => s
  | instants + 1, s =>
    let s := s.settle
    match s.nextDeadline with
    | some t => if t < limit then runUntil limit instants (s.advance t) else s.advance limit
    | none => s.advance limit

/-- Lets time go by. -/
def pass (ms : Nat) (s : Engine κ) : Engine κ := runUntil (s.now + ms) patience s

/-! ## Publishing beside the workers -/

/-- How a publish ended, with the outbox it leaves. -/
structure Finished (α : Type) where
  result : Flow.End α
  outbox : Option (List Outgoing)

/-- Runs a publish to its end, the workers running while it waits. -/
def runFlow {α : Type} : Nat → Work (Scope κ) α → Option (List Outgoing) → Engine κ →
    Finished α × Engine κ
  | 0, _, outbox, s => (⟨.unfinished, outbox⟩, s)
  | instants + 1, flow, outbox, s =>
    match flow.poll s.now ⟨s.world, outbox⟩ with
    | (flow, scope) =>
      let s := { s with world := scope.world }
      match flow with
      | .done a => (⟨.done a, scope.outbox⟩, s)
      | .panicked t => (⟨.panicked t, scope.outbox⟩, s)
      | flow =>
        let s := s.settle
        match Flow.earlier flow.nextWake s.nextDeadline with
        | some t => runFlow instants flow scope.outbox (s.advance t)
        | none => (⟨.unfinished, scope.outbox⟩, s)

/-- Runs a publish within the scope of an outbox, if one is given. -/
def publishWithin {α : Type} (outbox : Option (List Outgoing)) (flow : Work (Scope κ) α)
    (s : Engine κ) : Finished α × Engine κ :=
  let r := runFlow patience flow outbox s
  (r.1, r.2.notifyAll)

def publish {α : Type} (flow : Work (Scope κ) α) (s : Engine κ) : Flow.End α × Engine κ :=
  let r := s.publishWithin none flow
  (r.1.result, r.2)

/-- Publishes from synchronous code: the workers and the clock stand still meanwhile. -/
def publishBlocking (p : Publisher (Scope κ)) (ms : List Message) (s : Engine κ) :
    Published × Engine κ :=
  let r := p.publishBlocking s.now ms ⟨s.world, none⟩
  (r.1, { s with world := r.2.world }.notifyAll)

/-! ## Lifecycle -/

/-- Applies an operation on the world. -/
def onWorld {ε α : Type} (s : Engine κ) (o : Op κ ε α) : Except ε α × Engine κ :=
  match o.exec s.world with
  | (r, world) => (r, { s with world }.notifyAll)

/-- Subscribes to an endpoint; transient failures are retried after a while, at most `retries`
times, counted up from call `i`. -/
def subscribe (b : Backoff) (endpoint : Endpoint) :
    Nat → Nat → Engine κ → Except TransportError Subscription × Engine κ
  | retries, i, s =>
    match s.onWorld (World.subscribe endpoint) with
    | (.ok stream, s) => (.ok stream, s)
    | (.error e, s) =>
      if e.isTransient then
        match retries, b.delay? i with
        | retries + 1, some ms => subscribe b endpoint retries (i + 1) (s.pass ms)
        | _, _ => (.error e, s)
      else (.error e, s)

/-- The backoff of a consumer that begins to connect. -/
def backoff (s : Engine κ) (c : Consumer κ) : Backoff :=
  ⟨some c.service.connectRetries, s.delays c.id s.now⟩

/-- Starts the worker of a consumer that has none. -/
def connectConsumer (id : Nat) (s : Engine κ) : Except TransportError Unit × Engine κ :=
  match s.consumer? id with
  | none => (.ok (), s)
  | some c =>
    if c.worker.isSome then (.ok (), s)
    else
      match s.subscribe (s.backoff c) c.endpoint c.service.connectRetries 0 with
      | (.error e, s) => (.error e, s)
      | (.ok stream, s) => (.ok (), (s.replace (c.start stream)).wake id)

/-- Runs the engine until the worker of a consumer has ended. -/
def runToEnd (id : Nat) : Nat → Engine κ → Engine κ
  | 0, s => s
  | instants + 1, s =>
    let s := s.settle
    match (s.consumer? id).bind Consumer.worker with
    | none => s
    | some w =>
      if w.isEnded then s
      else
        match s.nextDeadline with
        | some t => runToEnd id instants (s.advance t)
        | none => s

/-- Cancels the worker of a consumer and waits for the batch in flight. -/
def disconnectConsumer (id : Nat) (s : Engine κ) : Engine κ :=
  match s.consumer? id with
  | none => s
  | some c =>
    match c.worker with
    | none => s
    | some w =>
      let s := (s.replace (c.mapSignal .raise))
      let s := runToEnd id patience (if w.isEnded then s else s.wake id)
      match s.consumer? id with
      | some c => { s with waiters := s.waiters.filter (· != id) }.replace c.release
      | none => s

/-- Connects consumers in order; where one fails, those before it are disconnected again. -/
def connectAll (started : List Nat) : List Nat → Engine κ → Except TransportError Unit × Engine κ
  | [], s => (.ok (), s)
  | id :: ids, s =>
    match s.connectConsumer id with
    | (.ok _, s) => connectAll (started ++ [id]) ids s
    | (.error e, s) => (.error e, started.foldl (fun s id => s.disconnectConsumer id) s)

def setConnected (c : Bool) (s : Engine κ) : Engine κ :=
  { s with broker := s.broker.map fun b => { b with connected := c } }

/-- Connects every consumer of the broker. -/
def connect (s : Engine κ) : Except BrokerError Unit × Engine κ :=
  match s.broker with
  | none => (.ok (), s)
  | some b =>
    if b.connected then (.ok (), s)
    else
      match s.connectAll [] (b.consumers.map Consumer.id) with
      | (.ok _, s) => (.ok (), s.setConnected true)
      | (.error e, s) => (.error (.transport e), s)

/-- Stops every consumer of the broker, waiting for the batches in flight. -/
def disconnect (s : Engine κ) : Engine κ :=
  match s.broker with
  | none => s
  | some b =>
    if b.connected then
      let ids := b.consumers.map Consumer.id
      (ids.foldl (fun s id => s.disconnectConsumer id) s).setConnected false
    else s

/-- Lets go of the broker. Nobody can cancel its workers any more, which they notice. -/
def dropBroker (s : Engine κ) : Engine κ :=
  match s.broker with
  | none => s
  | some b =>
    let left := b.consumers.map (Consumer.mapSignal .abandon)
    let s := { s with
      broker := none, orphans := s.orphans ++ left
      world := { s.world with broker := none, producers := [] } }
    left.foldl (fun s c => s.wake c.id) s

/-- Makes sure that the broker of the given number has a producer for the endpoint. -/
def useProducer (broker : Nat) (e : Endpoint) (s : Engine κ) : Engine κ :=
  (s.onWorld (ε := Unit) (World.useProducer broker e)).2

/-- Puts a new broker into service. -/
def install (b : Broker κ) (s : Engine κ) : Engine κ :=
  let world := { s.world with broker := some b.number, latest := b.number, producers := [] }
  { s with broker := some b, world }

/-- Binds the publisher that consumers of the broker dispatch to. -/
def bindPublisher (p : Publisher (Scope κ)) (s : Engine κ) : Except BrokerError Unit × Engine κ :=
  match s.broker with
  | none => (.ok (), s)
  | some b =>
    match b.bindPublisher p with
    | .error err => (.error err, s)
    | .ok b => (.ok (), { s with broker := some b })

/-- The consumer of an endpoint, made with the settings if the broker has none. -/
def getConsumer (e : Endpoint) (cs : ConsumerSettings) (s : Engine κ) :
    Except BrokerError (Option (Consumer κ)) × Engine κ :=
  match s.broker with
  | none => (.ok none, s)
  | some b =>
    match b.getConsumerWith s.nextId e cs with
    | .error err => (.error err, s)
    | .ok (c, b) => (.ok (some c), { s with broker := some b, nextId := s.nextId + 1 })

end Engine

end Relay
