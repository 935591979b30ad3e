import Mathlib.Logic.Function.Iterate
import Mathlib.Logic.Relation
import Relay.Consumer.Worker
import Relay.Proofs.Discretion
import Relay.Proofs.Routing
/-!
# The course of a consumer

A consumer's worker takes its steps, at any times, between the steps of others; it is cancelled or
let go of at any moment, and once it has ended a new one may take its place on another
subscription. `Step R` is one step of this, the others changing the world along `R`. The state
keeps, beside the worker and the world, what the worker has done so far.

The consumers on which later results are tried out share one small application (`noted`).
-/
namespace Relay

variable {κ : Type}

/-- A worker in its world, with its history. -/
structure Course (κ : Type) where
  worker : Worker κ
  world : World κ
  /-- Messages the subscription has delivered, in order. -/
  delivered : List RawMessage := []
  /-- Batches of them that were taken up, in order. -/
  batches : List (List RawMessage) := []
  /-- Number of batches that were brought to their end. -/
  finished : Nat := 0
  /-- Offsets that were acknowledged on the topic when the subscription began. -/
  base : List String := []
  /-- Messages of the batches that were brought to their end in earlier subscriptions. -/
  earlier : List RawMessage := []
  /-- Message ids of the envelopes that the attempt in progress has handed to the publisher. -/
  handing : List String := []
  /-- Message ids that an attempt has handed to the publisher and that were in the log when it was
  over, attempt by attempt. -/
  recorded : List String := []

theorem Worker.take_fixed {w w' : Worker κ} {world : World κ} {i : Option Item}
    (h : w.take world = (i, w')) : w'.endpoint = w.endpoint ∧ w'.service = w.service := by
  cases h
  exact ⟨rfl, rfl⟩

/-- A worker keeps its endpoint and its service. -/
theorem Worker.step_fixed (w : Worker κ) (now : Nat) (world : World κ) :
    (w.step now world).worker.endpoint = w.endpoint ∧
      (w.step now world).worker.service = w.service := by
  unfold step
  repeat' split
  all_goals first
    | exact ⟨rfl, rfl⟩
    | have htake := take_fixed ‹w.take world = _›
      exact htake

namespace Course

/-- The offsets acknowledged on the consumer's topic. -/
def acknowledgedOffsets (c : Course κ) : List String :=
  (c.world.transport.topic c.worker.endpoint.name).acknowledged

/-- The batches of the subscription that were brought to their end. -/
def closed (c : Course κ) : List (List RawMessage) := c.batches.take c.finished

/-- The messages of all batches that were ever brought to their end. -/
def acknowledged (c : Course κ) : List RawMessage := c.earlier ++ c.closed.flatten

/-- The entry of a message in the log. -/
def entry (c : Course κ) (id : String) : LogEntry := ⟨id, c.worker.endpoint.name⟩

/-- The message a step of the worker takes from its stream. -/
def taken (c : Course κ) (w : Worker κ) : List RawMessage :=
  if w.stream.delivered = c.worker.stream.delivered then []
  else
    match (c.world.transport.next c.worker.stream).1 with
    | some (.message m) => [m]
    | _ => []

/-- The batch that a step between two phases takes up. -/
def begun : Phase κ → Phase κ → List (List RawMessage)
  | .filling batch _, .attempting _ _ => [batch]
  | _, _ => []

/-- The number of batches that a step between two phases brings to their end. -/
def ended : Phase κ → Phase κ → Nat
  | .attempting _ _, .ready => 1
  | .dispatching _ _ _ _, .ready => 1
  | _, _ => 0

/-- What an attempt at a batch hands to the publisher. -/
def hands (c : Course κ) (batch : List RawMessage) : List String :=
  match Attempt.prepare c.worker.service.pipeline c.worker.endpoint batch ⟨{}, c.world⟩ with
  | .ok ms _ => envelopeIds ms
  | .error _ _ => []

/-- What is being handed to the publisher after a step into a phase. -/
def handingIn (c : Course κ) : Phase κ → List String
  | .dispatching _ _ _ _ =>
    match c.worker.phase with
    | .attempting batch _ => c.hands batch
    | _ => c.handing
  | _ => []

/-- The ids recorded after a step into a phase that leaves a log. -/
def recordedIn (c : Course κ) (log : InboundLog) : Phase κ → List String
  | .dispatching _ _ _ _ => c.recorded
  | _ => c.recorded ++ c.handing.filter fun id => log.items.contains (c.entry id)

/-- A step of the worker. -/
def work (now : Nat) (c : Course κ) : Course κ :=
  let r := c.worker.step now c.world
  { c with
    worker := r.worker
    world := r.world
    delivered := c.delivered ++ c.taken r.worker
    batches := c.batches ++ begun c.worker.phase r.worker.phase
    finished := c.finished + ended c.worker.phase r.worker.phase
    handing := c.handingIn r.worker.phase
    recorded := c.recordedIn r.world.log r.worker.phase }

/-- A change of the cancellation signal. -/
def signal (f : Signal → Signal) (c : Course κ) : Course κ :=
  { c with worker := { c.worker with signal := f c.worker.signal } }

/-- A new worker on another subscription. -/
def renew (stream : Subscription) (c : Course κ) : Course κ :=
  { c with
    worker := { c.worker with stream, signal := {}, phase := .ready }
    delivered := []
    batches := []
    finished := 0
    base := c.acknowledgedOffsets
    earlier := c.acknowledged
    handing := [] }

/-- The first worker of a consumer, on a subscription, in a world. -/
def start (w : Worker κ) (world : World κ) : Course κ where
  worker := { w with signal := {}, phase := .ready }
  world := world
  base := (world.transport.topic w.endpoint.name).acknowledged

/-- A world with empty stores, with a topic on which nothing was produced. -/
def emptyWorld : World Unit :=
  { World.create .memory with transport := { topics := [("orders", {})] } }

/-- One step of the consumer or, along `R`, of others. -/
inductive Step (R : World κ → World κ → Prop) : Course κ → Course κ → Prop
  | work (now : Nat) (c : Course κ) : Step R c (c.work now)
  | others {c : Course κ} {world : World κ} (h : R c.world world) : Step R c { c with world }
  | cancel (c : Course κ) : Step R c (c.signal .raise)
  | abandon (c : Course κ) : Step R c (c.signal .abandon)
  | renew {c : Course κ} (stream : Subscription) (h : c.worker.isEnded = true) :
    Step R c (c.renew stream)

/-- Any number of steps. -/
abbrev Steps (R : World κ → World κ → Prop) : Course κ → Course κ → Prop :=
  Relation.ReflTransGen (Step R)

/-- Any number of steps of the worker. -/
theorem steps_iterate {R : World κ → World κ → Prop} (c : Course κ) (now n : Nat) :
    Steps R c (Nat.iterate (work now) n c) := by
  induction n generalizing c with
  | zero => exact .refl
  | succ n ih => exact .head (.work now c) (ih _)

theorem Step.fixed {R : World κ → World κ → Prop} {c c' : Course κ} (h : Step R c c') :
    c'.worker.endpoint = c.worker.endpoint ∧ c'.worker.service = c.worker.service := by
  cases h with
  | work now => exact c.worker.step_fixed now c.world
  | others => exact ⟨rfl, rfl⟩
  | cancel => exact ⟨rfl, rfl⟩
  | abandon => exact ⟨rfl, rfl⟩
  | renew => exact ⟨rfl, rfl⟩

/-! ## A small application

Records of one type are handed to one handler. The consumers that run it differ in their settings and
in what they are delivered. -/

/-- The type is known on the wire. -/
def pingWire : Wire := ⟨.ofList [(⟨"Ping", [], []⟩, "ping")], none⟩

/-- A record of it, in a message. -/
def ping (id offset : String) : RawMessage :=
  ⟨[0x7B, 0x7D], ⟨[(Headers.messageId, id), (Headers.messageType, "ping")]⟩, some offset⟩

/-- The handler notes that it is called, and fails the first times. -/
def noting (failures : Nat) : Method (Scope Unit) where
  name := "note"
  handler := .async fun _ _ => .act (fun s => (s.world.notes.length, s.note ())) fun n =>
    .done (if n < failures then .error "not yet" else .ok none)

/-- A service with this handler and no stages of its own. -/
def noted (failures : Nat) : Service Unit where
  broker := 0
  wire := pingWire
  pipeline := ⟨Pipeline.builtIn pingWire⟩
  publisher := ⟨[], [noting failures], .standard, [], 0, 1⟩
  connectRetries := 0

theorem noted_pipeline (failures : Nat) :
    (noted failures).pipeline = .create (noted failures).wire [] :=
  congrArg Pipeline.mk (Pipeline.create_stages _).symm

/-- A relation that notes respect is kept by every publish. -/
theorem noted_keeps {R : Scope Unit → Scope Unit → Prop} [Std.Refl R] (hnote : ∀ s, R s (s.note ()))
    (failures : Nat) (ms : List Message) : ((noted failures).publisher.publish ms).Keeps R := by
  refine Publisher.publish_keeps (fun _ hb => absurd hb List.not_mem_nil) (fun m hm => ?_) ms
  rw [List.mem_singleton.mp hm]
  exact fun _ _ _ => .act hnote fun _ => .done _

end Course

end Relay
