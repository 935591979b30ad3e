import Relay.Proofs.Consumer.Derived
/-!
# The outbox holds what is routed

While a consumer dispatches a batch, the outbox of the batch's transaction is current on the task that
does so. What a handler awaits there, and what it returns to be published again, reaches the routers
with that outbox current, in exclusive, concurrent and parallel methods and at every level of nesting.
So it is queued, and an attempt that fails produces none of it.

On other threads no outbox is current. What a handler publishes from there, be it a synchronous one on
the pool or an asynchronous one that blocks, is produced at once and stays so when the attempt fails
(`held_bypassed`). Where this comes to the topic the consumer does not defer what it routes
(`Worker.Defers`).

Results:
- `Deferred.step`: a step of an attempt, up to its end, only fills the outbox.
- `Trail.held`: every moment of a dispatch has the outbox current, so routers queue what they are given.
-/
namespace Relay

open World (Unsent)

variable {κ : Type} {name : String} {routers : List Router}

/-- The outbox is current and holds what routers have queued, and nothing was produced to the topic
since `w`. So a router queues all that it makes of messages, in order, and produces nothing. -/
structure Scope.Holding (routers : List Router) (name : String) (w : World κ) (s : Scope κ) :
    Prop where
  unsent : Unsent name w s.world
  queues : ∃ os, s.outbox = some os ∧ Queued routers os ∧
    ∀ (r : Router) (broker : Nat) (ms : List Message), s.world.broker = some broker →
      ∃ v : World κ, v.transport = s.world.transport ∧
        r.sendAll broker (ms.flatMap r.outgoing) s =
          .ok () ⟨v, some (os ++ ms.flatMap r.outgoing)⟩

theorem Scope.Held.holding {w world : World κ} {os : List Outgoing} {s : Scope κ}
    (h : Scope.Held routers name ⟨world, some os⟩ s) (hq : Queued routers os)
    (hw : Unsent name w world) : s.Holding routers name w := by
  obtain ⟨new, hnew, hout, hu⟩ := h os rfl
  refine ⟨IsTrans.trans _ _ _ hw hu, os ++ new, hout, hq.append hnew, fun r broker ms hb => ?_⟩
  obtain ⟨v, hv, hkept⟩ := r.sendAll_queues hout hb (ms.flatMap r.outgoing)
  exact ⟨v, by rw [hkept], hv⟩

/-! ## Up to the end of an attempt -/

/-- The phase is in an attempt of which nothing routed has come to the topic. -/
def Phase.Deferring (routers : List Router) (name : String) : Phase κ → Prop
  | .attempting .. => True
  | .dispatching _ _ tx flow =>
    (tx.Along (Unsent name) ∧ flow.Keeps (Scope.Held routers name)) ∧ Queued routers tx.outbox
  | _ => False

theorem Phase.Deferring.along {p : Phase κ} (h : p.Deferring routers name) :
    p.Along (Unsent name) (Scope.Held routers name) := by
  cases p with
  | dispatching => exact h.1
  | _ => trivial

/-- What has become of the attempt at a batch that was to begin in `t`: it goes on, or it is over and
has produced nothing if it failed, or its publish has panicked. -/
inductive Deferred (routers : List Router) (name : String) (t t' : Trail κ) : Prop
  | running (htried : t'.tried = t.tried) (hworld : Unsent name t.world t'.world)
    (hphase : t'.worker.phase.Deferring routers name)
  | finished {a : Tried κ} {later : List (Tried κ)} (htried : t'.tried = t.tried ++ a :: later)
    (hqueued : Queued routers a.outbox)
    (hworld : ∀ e, a.outcome = .failed e → Unsent name t.world a.world)
  | panicked (htried : t'.tried = t.tried) (hphase : t'.worker.phase = .panicked)

namespace Deferred

variable {t t' t'' : Trail κ}

/-- A step of the worker in the attempt. -/
theorem turn {now : Nat} {w' : Worker κ} {world' : World κ} {a : Option (Tried κ)}
    (hw : t'.worker.Defers routers name) (htried : t'.tried = t.tried)
    (hworld : Unsent name t.world t'.world) (hphase : t'.worker.phase.Deferring routers name)
    (h : t'.worker.Turn now t'.world w' world' a) :
    Deferred routers name t ⟨w', world', t'.tried ++ a.toList⟩ := by
  have hnone : t'.tried ++ (none : Option (Tried κ)).toList = t.tried := by
    rw [← htried]
    exact List.append_nil _
  cases h with
  | @ended b k tx u v h =>
    have hrunning : ∀ b k tx flow, t'.worker.phase = .dispatching b k tx flow →
        Queued routers tx.outbox := by
      intro b k tx flow hb
      rw [hb] at hphase
      exact hphase.2
    obtain ⟨htx, hu⟩ := h.keeps hw.along hphase.along
    have hqueued := h.queued hw.prepare hphase.along hrunning
    have hfinished : t'.tried ++ [t'.worker.closes b k tx u v] =
        t.tried ++ t'.worker.closes b k tx u v :: [] := by rw [htried]
    refine .finished hfinished ?_ fun e he => ?_
    · rw [Worker.closes_outbox]
      exact hqueued
    · have hroll : Within (Unsent name) (tx.rollback t'.worker.service.wire) :=
        Transaction.rollback_along htx
      rw [Worker.closes_failed he]
      exact IsTrans.trans _ _ _ (IsTrans.trans _ _ _ hworld hu) (hroll u)
  | launched hb hp =>
    have ha := (hw.along.prepare _).ok hp
    refine .running hnone (IsTrans.trans _ _ _ hworld ha.world)
      ⟨⟨ha.resources Transaction.along_empty, hw.publisher _⟩, ?_⟩
    rw [(hw.prepare _).ok hp]
    exact .nil
  | @polled _ _ tx _ _ _ hb hpoll =>
    rw [hb] at hphase
    obtain ⟨⟨htx, hflow⟩, hq⟩ := hphase
    have hqueued := Worker.polled_queued hflow hq hpoll
    obtain ⟨hs, hk⟩ := hflow.poll now ⟨t'.world, some tx.outbox⟩
    rw [hpoll] at hs hk
    obtain ⟨-, -, -, hu⟩ := hs _ rfl
    exact .running hnone (IsTrans.trans _ _ _ hworld hu) ⟨⟨htx, hk⟩, hqueued⟩
  | panicked => exact .panicked hnone rfl
  | stopped hb | woken hb | waiting hb =>
    rw [hb] at hphase
    cases hphase

/-- Every step keeps it so. -/
theorem step (h : Deferred routers name t t') (hw : t'.worker.Defers routers name)
    (hs : Trail.Step (Unsent name) t' t'') : Deferred routers name t t'' := by
  cases h with
  | running htried hworld hphase =>
    cases hs with
    | work now hb => exact turn hw htried hworld hphase (Worker.turn now t'.world hb)
    | others hr => exact .running htried (IsTrans.trans _ _ _ hworld hr) hphase
    | cancel | abandon => exact .running htried hworld hphase
  | @finished a later htried hqueued hworld =>
    cases hs with
    | work now hb =>
      have hfinished : (t'.work now).tried =
          t.tried ++ a :: (later ++ (t'.worker.tried? now t'.world).toList) := by
        change t'.tried ++ _ = _
        rw [htried, List.append_assoc, List.cons_append]
      exact .finished hfinished hqueued hworld
    | others | cancel | abandon => exact .finished htried hqueued hworld
  | panicked htried hphase =>
    cases hs with
    | work now hb => rw [hphase] at hb; cases hb
    | others | cancel | abandon => exact .panicked htried hphase

end Deferred

namespace Trail

/-- **The outbox holds what is routed.** In whatever state an attempt began, until it is over every
moment of its dispatch has its outbox current: routers queue what they are given there, in order, and
nothing comes to the topic. When it is over, all that waits in its outbox was queued by routers, and
if it has failed, wherever it did, none of that was produced. -/
theorem routed_held {t t' : Trail κ} {batch : List RawMessage} {k : UInt32}
    (hw : t.worker.Defers routers name) (hphase : t.worker.phase = .attempting batch k)
    (hs : Steps (Unsent name) t t') :
    (t'.tried = t.tried → ∀ b k tx flow, t'.worker.phase = .dispatching b k tx flow →
      ∀ now s, flow.Visits now ⟨t'.world, some tx.outbox⟩ s → s.Holding routers name t.world) ∧
    ∀ a later, t'.tried = t.tried ++ a :: later →
      Queued routers a.outbox ∧ ∀ e, a.outcome = .failed e → Unsent name t.world a.world := by
  have hrun : Deferred routers name t t' ∧ t'.worker.service = t.worker.service := by
    induction hs with
    | refl =>
      refine ⟨.running rfl (Std.Refl.refl _) ?_, rfl⟩
      rw [hphase]
      trivial
    | tail _ hstep ih =>
      exact ⟨ih.1.step (hw.of_service ih.2) hstep, hstep.fixed.2.2.trans ih.2⟩
  refine ⟨fun htried b k tx flow hb now s hv => ?_, fun a later ha => ?_⟩
  · cases hrun.1 with
    | running _ hworld hphase =>
      rw [hb] at hphase
      obtain ⟨⟨-, hflow⟩, hq⟩ := hphase
      exact (hflow.visits hv).holding hq hworld
    | finished htried' => simp [htried'] at htried
    | panicked _ hphase => cases hphase.symm.trans hb
  · cases hrun.1 with
    | running htried => simp [htried] at ha
    | panicked htried => simp [htried] at ha
    | finished htried hqueued hworld =>
      rw [htried, List.append_cancel_left_eq, List.cons.injEq] at ha
      obtain ⟨rfl, -⟩ := ha
      exact ⟨hqueued, hworld⟩

/-! ### Handlers that publish and then fail -/

open Course (emptyWorld)

/-- A handler on the pool that returns a record to be published again. -/
def echoing (r : Record) : Method (Scope Unit) where
  name := "echo"
  handler := .blocking fun _ _ _ s => (.answered (.ok (some (.messages [.record r]))), s)
  exclusive := false
  parallel := true

/-- A handler that blocks for its publish of a record. -/
def blocking (r : Record) : Method (Scope Unit) where
  name := "block"
  handler := .async fun _ self => .clock fun now =>
    .act (self.publishBlocking now [.record r]) fun _ => .done (.error "not yet")

/-- The same on the pool. -/
def pooled (r : Record) : Method (Scope Unit) where
  name := "pool"
  handler := .blocking fun now _ self s =>
    (.answered (.error "not yet"), (self.publishBlocking now [.record r] s).2)

/-- A consumer with the methods that tries a batch twice at most and then skips it. -/
def serving (methods : List (Method (Scope Unit))) : Worker Unit where
  endpoint := ⟨"orders", none, []⟩
  settings := { policy := some (.chain [.retry ⟨2, 0, 0⟩, .skip]) }
  service :=
    { broker := 0, wire := knownWire, pipeline := ⟨Pipeline.builtIn knownWire⟩
      publisher := ⟨[toPayments.behavior], methods, .standard, [], 0, 2⟩, connectRetries := 0 }
  stream := ⟨"orders", [], 0, 0, false⟩

/-- The consumer about to try a message. -/
def serve (methods : List (Method (Scope Unit))) : Trail Unit :=
  start (serving methods) [pinging] emptyWorld

/-- The first attempt and its publish. -/
def served (methods : List (Method (Scope Unit))) : Trail Unit := ((serve methods).work 0).work 0

theorem serving_defers (records : List Record) (failures : Nat) (r : Record) :
    (serving [answering records failures, echoing r]).Defers [toPayments] name where
  pipeline := ⟨[], congrArg Pipeline.mk (Pipeline.create_stages _).symm, fun _ h => by cases h⟩
  behaviors b hb :=
    Or.inl ⟨toPayments, List.mem_singleton_self _, Router.sortIndex, List.mem_singleton.mp hb⟩
  methods m hm depth hself := by
    have hkeeps : m.Keeps (Scope.Held [toPayments] name) := by
      rcases List.mem_cons.mp hm with rfl | hm
      · exact (answerer_derives records failures).methods _ (List.mem_singleton_self _)
      · rw [List.mem_singleton.mp hm]
        exact fun _ _ _ _ => .of_kept rfl fun _ => Std.Refl.refl _
    exact hkeeps.by_self hself

/-- What the handler has published waits in the outbox, and goes with it when the handler fails. -/
theorem routed_held_failed :
    ∃ a, (served [answering [blank "Pong"] 1, echoing (blank "Pong")]).tried = [a] ∧
      a.outcome = .failed (.dispatch (.handler "answer" "not yet")) ∧ a.outbox.length = 1 ∧
      Queued [toPayments] a.outbox ∧ a.world.transport.produced "payments" = [] := by
  have hs : Steps (Unsent "payments") (serve [answering [blank "Pong"] 1, echoing (blank "Pong")])
      (served [answering [blank "Pong"] 1, echoing (blank "Pong")]) :=
    (Relation.ReflTransGen.single (.work 0 rfl)).tail (.work 0 rfl)
  have htried : ((served [answering [blank "Pong"] 1, echoing (blank "Pong")]).tried.map
      fun a => (a.outcome, a.outbox.length)) =
        [(.failed (.dispatch (.handler "answer" "not yet")), 1)] := by decide +kernel
  obtain ⟨a, later, ha, heq, hlater⟩ := List.map_eq_cons_iff.mp htried
  rw [List.map_eq_nil_iff.mp hlater] at ha
  obtain ⟨houtcome, hlength⟩ := Prod.mk.inj heq
  have hdefers : (serving [answering [blank "Pong"] 1, echoing (blank "Pong")]).Defers [toPayments]
      "payments" := serving_defers _ _ _
  obtain ⟨-, hover⟩ := routed_held (hdefers.of_service rfl) rfl hs
  obtain ⟨hqueued, hworld⟩ := hover a [] ha
  exact ⟨a, ha, houtcome, hlength, hqueued, hworld _ houtcome⟩

/-- A record that a handler publishes from another thread is on the topic when the attempt has
failed. -/
theorem held_bypassed :
    Steps (Unsent "payments") (serve [blocking (blank "Pong")]) (served [blocking (blank "Pong")]) ∧
      ((served [blocking (blank "Pong")]).tried.map fun a => (a.outcome, a.outbox.length,
        (a.world.transport.produced "payments").map RawMessage.payload)) =
        [(.failed (.dispatch (.handler "block" "not yet")), 0, [[0x7B, 0x7D]])] ∧
      Steps (Unsent "payments") (serve [pooled (blank "Pong")]) (served [pooled (blank "Pong")]) ∧
      ((served [pooled (blank "Pong")]).tried.map fun a => (a.outcome, a.outbox.length,
        (a.world.transport.produced "payments").map RawMessage.payload)) =
        [(.failed (.dispatch (.handler "pool" "not yet")), 0, [[0x7B, 0x7D]])] := by
  refine ⟨?_, by decide +kernel, ?_, by decide +kernel⟩
  · exact (Relation.ReflTransGen.single (.work 0 rfl)).tail (.work 0 rfl)
  · exact (Relation.ReflTransGen.single (.work 0 rfl)).tail (.work 0 rfl)

end Trail

end Relay
