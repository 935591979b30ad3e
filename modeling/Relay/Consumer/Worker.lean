import Relay.Consumer.Attempt
import Relay.Consumer.Settings
import Relay.Consumer.Signal
/-!
# The consume loop

A worker takes batches from a subscription and processes each until it is committed or the
error policy gives up on it. `step` is one move of the loop; a worker that has to wait, for a
message, the time or its cancellation, says so.
-/
namespace Relay

variable {κ : Type}

/-- Where a worker stands. `failed` counts the failed attempts at the batch. -/
inductive Phase (κ : Type) : Type 1
  /-- Between two batches. -/
  | ready
  /-- Waiting for the first message of a batch. -/
  | waiting
  /-- Waiting for more messages of a batch. -/
  | filling (batch : List RawMessage) (deadline : Nat)
  /-- Before an attempt. -/
  | attempting (batch : List RawMessage) (failed : UInt32)
  /-- In the publish of an attempt. -/
  | dispatching (batch : List RawMessage) (failed : UInt32) (tx : Transaction κ)
      (flow : Work (Scope κ) Published)
  /-- Waiting out the delay before the next attempt. -/
  | pausing (batch : List RawMessage) (failed : UInt32) (deadline : Nat)
  | stopped
  | failed (reason : String)
  | panicked

structure Worker (κ : Type) where
  endpoint : Endpoint
  settings : ConsumerSettings
  service : Service κ
  stream : Subscription
  signal : Signal := {}
  phase : Phase κ := .ready

namespace Worker

/-- What a step leaves. -/
structure Stepped (κ : Type) where
  worker : Worker κ
  world : World κ
  /-- Nothing more can be done now. -/
  waits : Bool := false

def isEnded (w : Worker κ) : Bool :=
  match w.phase with
  | .stopped => true
  | .failed _ => true
  | .panicked => true
  | _ => false

/-- The phase after the end of a batch. -/
def finished : Except String Unit → Phase κ
  | .ok _ => .ready
  | .error reason => .failed reason

/-- What follows failure number `failed + 1` of a batch. -/
def giveWay (w : Worker κ) (now : Nat) (batch : List RawMessage) (failed : UInt32)
    (e : InboundError) (world : World κ) : Phase κ × World κ :=
  if e.isFatal then (.failed e.message, world)
  else
    let failed := failed + 1
    match Policy.decideWith w.settings.policy failed with
    | .error _ => (.panicked, world)
    | .ok (.retry delay) =>
      let batch := Attempt.marked failed batch
      if delay = 0 then (.attempting batch failed, world)
      else (.pausing batch failed (now + delay), world)
    | .ok .skip =>
      let r := (Attempt.skip w.service w.endpoint batch).exec world
      (finished r.1, r.2)
    | .ok (.move target) =>
      let r := (Attempt.move w.service w.endpoint target failed batch).exec world
      (finished r.1, r.2)
    | .ok .fatal => (.failed e.message, world)

/-- Commits an attempt and acknowledges its batch. -/
def conclude (w : Worker κ) (now : Nat) (batch : List RawMessage) (failed : UInt32)
    (tx : Transaction κ) (world : World κ) : Phase κ × World κ :=
  match (tx.commit w.service.wire).exec world with
  | (.error e, world) => w.giveWay now batch failed (.store e) world
  | (.ok _, world) =>
    let r := ((Attempt.acknowledge w.endpoint batch).mapError TransportError.message).exec world
    (finished r.1, r.2)

/-- Rolls back an attempt that failed. -/
def abort (w : Worker κ) (now : Nat) (batch : List RawMessage) (failed : UInt32)
    (tx : Transaction κ) (e : InboundError) (world : World κ) : Phase κ × World κ :=
  w.giveWay now batch failed e ((tx.rollback w.service.wire).exec world).2

/-- Begins an attempt: the pipeline, and the publish if it accepted anything. -/
def begin (w : Worker κ) (now : Nat) (batch : List RawMessage) (failed : UInt32)
    (world : World κ) : Phase κ × World κ :=
  match Attempt.prepare w.service.pipeline w.endpoint batch ⟨{}, world⟩ with
  | .error e s => w.abort now batch failed s.transaction e s.world
  | .ok [] s => w.conclude now batch failed s.transaction s.world
  | .ok ms s =>
    (.dispatching batch failed s.transaction (w.service.publisher.publish ms), s.world)

/-- Goes on with the publish of an attempt. -/
def proceed (w : Worker κ) (now : Nat) (batch : List RawMessage) (failed : UInt32)
    (tx : Transaction κ) (flow : Work (Scope κ) Published) (world : World κ) :
    Phase κ × World κ × Bool :=
  match flow.poll now ⟨world, some tx.outbox⟩ with
  | (flow, s) =>
    let tx := { tx with outbox := s.outbox.getD [] }
    match flow with
    | .done (.ok _) =>
      let r := w.conclude now batch failed tx s.world
      (r.1, r.2, false)
    | .done (.error e) =>
      let r := w.abort now batch failed tx (.dispatch e) s.world
      (r.1, r.2, false)
    | .panicked _ => (.panicked, s.world, false)
    | flow => (.dispatching batch failed tx flow, s.world, true)

/-- Takes the next item of the stream. -/
def take (w : Worker κ) (world : World κ) : Option Item × Worker κ :=
  let r := world.transport.next w.stream
  (r.1, { w with stream := r.2 })

def step (w : Worker κ) (now : Nat) (world : World κ) : Stepped κ :=
  match w.phase with
  | .ready =>
    { worker := { w with phase := if w.signal.raised then .stopped else .waiting }, world }
  | .waiting =>
    match w.signal.changed? with
    | some signal => { worker := { w with signal, phase := .stopped }, world }
    | none =>
      match w.take world with
      | (some (.message m), w) =>
        if largestBatch < w.settings.batch.size then
          { worker := { w with phase := .panicked }, world }
        else { worker := { w with phase := .filling [m] (now + w.settings.batch.maxWait) }, world }
      | (some (.failed e), w) => { worker := { w with phase := .failed e.message }, world }
      | (some .closed, w) => { worker := { w with phase := .stopped }, world }
      | (none, w) => { worker := w, world, waits := true }
  | .filling batch deadline =>
    if w.settings.batch.size ≤ batch.length then
      { worker := { w with phase := .attempting batch 0 }, world }
    else
      match w.signal.changed? with
      | some signal => { worker := { w with signal, phase := .attempting batch 0 }, world }
      | none =>
        match w.take world with
        | (some (.message m), w) =>
          { worker := { w with phase := .filling (batch ++ [m]) deadline }, world }
        | (some (.failed e), w) => { worker := { w with phase := .failed e.message }, world }
        | (some .closed, w) => { worker := { w with phase := .attempting batch 0 }, world }
        | (none, w) =>
          if deadline ≤ now then { worker := { w with phase := .attempting batch 0 }, world }
          else { worker := w, world, waits := true }
  | .attempting batch failed =>
    let r := w.begin now batch failed world
    { worker := { w with phase := r.1 }, world := r.2 }
  | .dispatching batch failed tx flow =>
    let r := w.proceed now batch failed tx flow world
    { worker := { w with phase := r.1 }, world := r.2.1, waits := r.2.2 }
  | .pausing batch failed deadline =>
    match w.signal.changed? with
    | some signal => { worker := { w with signal, phase := .ready }, world }
    | none =>
      if deadline ≤ now then { worker := { w with phase := .attempting batch failed }, world }
      else { worker := w, world, waits := true }
  | .stopped => { worker := w, world, waits := true }
  | .failed _ => { worker := w, world, waits := true }
  | .panicked => { worker := w, world, waits := true }

/-- Steps until the worker waits, at most `steps` times. -/
def run : Nat → Worker κ → Nat → World κ → Worker κ × World κ
  | 0, w, _, world => (w, world)
  | steps + 1, w, now, world =>
    let r := w.step now world
    if r.waits then (r.worker, r.world) else run steps r.worker now r.world

/-- When the worker can go on without a message or a cancellation. -/
def nextWake (w : Worker κ) : Option Nat :=
  match w.phase with
  | .filling _ deadline => some deadline
  | .pausing _ _ deadline => some deadline
  | .dispatching _ _ _ flow => flow.nextWake
  | _ => none

/-- Whether the worker waits for messages. -/
def listens (w : Worker κ) : Bool :=
  match w.phase with
  | .waiting => true
  | .filling .. => true
  | _ => false

end Worker

end Relay
