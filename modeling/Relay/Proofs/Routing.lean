import Relay.Proofs.Confinement
import Relay.Proofs.Flow
import Relay.Router
/-!
# What a publish queues

A publish keeps what its behaviors and its methods keep, however deep its handlers nest further
publishes (`Publisher.publish_keeps`). While there is an outbox, a router only puts messages at its
end, those that it would send out, in order (`Router.behavior_keeps`). So a publish whose other
behaviors and handlers leave the outbox and a topic alone fills the outbox with what its routers
queue, and produces nothing to the topic.
-/
namespace Relay

/-! ## Publishes -/

section
variable {σ : Type}

/-- A behavior that keeps `R` if the rest of the chain does. -/
def Behavior.Keeps (R : σ → σ → Prop) (b : Behavior σ) : Prop :=
  ∀ broker mode (next : List Message → Work σ Published), (∀ ms, (next ms).Keeps R) →
    ∀ ms, (b.handle broker mode next ms).Keeps R

variable [TaskState σ]

/-- A method that keeps `R` with what it can publish through; a synchronous handler runs on a thread
of its own. -/
def Method.KeepsBy (R : σ → σ → Prop) (self : Republish σ) (m : Method σ) : Prop :=
  match m.handler with
  | .async run => ∀ call, (run call self).Keeps R
  | .blocking run => ∀ now call s, R s (onThread (run now call self) s).2

/-- A method that keeps `R` whatever it can publish through, as long as what an asynchronous handler
awaits does. -/
def Method.Keeps (R : σ → σ → Prop) (m : Method σ) : Prop :=
  match m.handler with
  | .async run =>
    ∀ call (self : Republish σ), (∀ ms, (self.publish ms).Keeps R) → (run call self).Keeps R
  | .blocking run => ∀ now call self s, R s (onThread (run now call self) s).2

variable {R : σ → σ → Prop} {p : Publisher σ} {self : Republish σ}

theorem Method.Keeps.by_self {m : Method σ} (hm : m.Keeps R)
    (hself : ∀ ms, (self.publish ms).Keeps R) : m.KeepsBy R self := by
  unfold Method.Keeps at hm
  unfold Method.KeepsBy
  split
  · next h =>
    rw [h] at hm
    exact fun call => hm call self hself
  · next h =>
    rw [h] at hm
    exact fun now call => hm now call self

theorem callOnce_keeps {m : Method σ} (hm : m.KeepsBy R self) (c : Call) :
    (callOnce .async self m c).Keeps R := by
  unfold Method.KeepsBy at hm
  unfold callOnce
  split
  · next run h =>
    rw [h] at hm
    exact (hm c).bind fun a => .done _
  · next run h =>
    rw [h] at hm
    refine .clock fun now => .act (fun s => hm now c s) fun r => ?_
    cases r <;> exact .done _

theorem invoke_keeps {m : Method σ} (hm : m.KeepsBy R self) (r : Resolvers) (cs : Components)
    (ms : List Message) : (invoke r cs .async self ms m).Keeps R := by
  unfold invoke
  split
  · exact .done _
  · next calls _ =>
    have hall : ∀ f ∈ calls.map (callOnce .async self m), f.Keeps R := by
      intro f hf
      obtain ⟨c, -, rfl⟩ := List.mem_map.mp hf
      exact callOnce_keeps hm c
    dsimp only
    split
    · exact .sideBySide hall
    · exact .inTurn hall

namespace Publisher

omit [TaskState σ] in
theorem conclude_keeps {again : List Message → Work σ Published}
    (h : ∀ ms, (again ms).Keeps R) (rs : List Reply) : (conclude again rs).Keeps R := by
  unfold conclude
  split
  · exact .done _
  · exact (h _).andThen fun _ => .done _

theorem dispatch_keeps (hm : ∀ m ∈ p.methods, m.KeepsBy R self)
    {again : List Message → Work σ Published} (hagain : ∀ ms, (again ms).Keeps R)
    (ms : List Message) : (p.dispatch .async self again ms).Keeps R := by
  have hall : ∀ methods : List (Method σ), (∀ m ∈ methods, m ∈ p.methods) →
      ∀ f ∈ methods.map (invoke p.resolvers p.components .async self ms), f.Keeps R := by
    intro methods hsub f hf
    obtain ⟨m, hmem, rfl⟩ := List.mem_map.mp hf
    exact invoke_keeps (hm m (hsub m hmem)) _ _ ms
  refine (Flow.Keeps.inTurn (hall _ fun m h => (List.mem_filter.mp h).1)).andThen fun first => ?_
  refine (Flow.Keeps.sideBySide (hall _ fun m h => (List.mem_filter.mp h).1)).andThen fun rest => ?_
  exact conclude_keeps hagain _

omit [TaskState σ] in
theorem through_keeps {bs : List (Behavior σ)} (hb : ∀ b ∈ bs, b.Keeps R) {broker : Nat}
    {mode : Mode} {last : List Message → Work σ Published} (hlast : ∀ ms, (last ms).Keeps R)
    (ms : List Message) : (through broker mode last bs ms).Keeps R := by
  induction bs generalizing ms with
  | nil => exact hlast ms
  | cons b bs ih =>
    exact hb b List.mem_cons_self broker mode _ (ih fun x hx => hb x (List.mem_cons_of_mem _ hx)) ms

/-- What the handlers of a publish can publish through when `depth` levels of nesting are left for
it. -/
def nested (p : Publisher σ) (depth : Nat) : Republish σ where
  publish ms := .act (fun s => (TaskState.latestBroker s, s)) fun latest =>
    p.execute .async latest depth ms
  publishBlocking now ms := onThread fun s =>
    let r := (p.execute .blocking (TaskState.latestBroker s) depth ms).complete patience now s
    (joined r.1, r.2)

/-- A method of the publisher that keeps `R`, as long as what an asynchronous handler awaits does. -/
def Carries (p : Publisher σ) (R : σ → σ → Prop) (m : Method σ) : Prop :=
  ∀ depth, (∀ ms, ((p.nested depth).publish ms).Keeps R) → m.KeepsBy R (p.nested depth)

/-- The induction is on the levels of nesting that are left: what a handler publishes and what it
returns is published one level down. -/
theorem execute_keeps [Std.Refl R] (hb : ∀ b ∈ p.behaviors, b.Keeps R)
    (hm : ∀ m ∈ p.methods, p.Carries R m) (depth : Nat) :
    ∀ broker ms, (p.execute .async broker depth ms).Keeps R := by
  induction depth with
  | zero => exact fun _ _ => .panicked _
  | succ depth ih =>
    intro broker ms
    have hself : ∀ ms, ((p.nested depth).publish ms).Keeps R := fun ms =>
      .act (fun s => Std.Refl.refl s) fun latest => ih latest ms
    unfold execute
    split
    · exact .done _
    · exact through_keeps hb (dispatch_keeps (fun m h => hm m h depth hself) (ih broker)) ms

/-- **A publish keeps what its behaviors and its methods keep.** -/
theorem publish_keeps_carried [Std.Refl R] (hb : ∀ b ∈ p.behaviors, b.Keeps R)
    (hm : ∀ m ∈ p.methods, p.Carries R m) (ms : List Message) : (p.publish ms).Keeps R :=
  execute_keeps hb hm _ _ _

theorem publish_keeps [Std.Refl R] (hb : ∀ b ∈ p.behaviors, b.Keeps R)
    (hm : ∀ m ∈ p.methods, m.Keeps R) (ms : List Message) : (p.publish ms).Keeps R :=
  publish_keeps_carried hb (fun m h _ => (hm m h).by_self) ms

end Publisher

end

/-! ## Queues -/

variable {κ : Type} {name : String}

namespace World

/-- Nothing was produced to the topic. -/
def Unsent (name : String) (w w' : World κ) : Prop :=
  w'.transport.produced name = w.transport.produced name

instance : Std.Refl (Unsent (κ := κ) name) := ⟨fun _ => rfl⟩

instance : IsTrans (World κ) (Unsent name) := ⟨fun _ _ _ h h' => Eq.trans h' h⟩

theorem Unsent.of_transport {w w' : World κ} (h : w'.transport = w.transport) :
    Unsent name w w' := by
  unfold Unsent
  rw [h]

/-- Nothing is new but the producer. -/
theorem useProducer_kept {ε : Type} (broker : Nat) (endpoint : Endpoint) (w : World κ) :
    endState (useProducer (ε := ε) broker endpoint) w =
      { w with producers := (endState (useProducer (ε := ε) broker endpoint) w).producers } := by
  have hend : endState (useProducer (ε := ε) broker endpoint) w =
      if w.broker = some broker ∧ endpoint ∉ w.producers then
        { w with producers := w.producers ++ [endpoint] }
      else w := rfl
  rw [hend]
  split <;> rfl

theorem Stores.unsent {w w' : World κ} (h : Stores w w') : Unsent name w w' :=
  .of_transport h.transport

end World

open World (Unsent)

/-- The messages are what some of the routers make of messages that they are given, in order. -/
def Queued (routers : List Router) (os : List Outgoing) : Prop :=
  ∃ given : List (Router × List Message), (∀ x ∈ given, x.1 ∈ routers) ∧
    os = given.flatMap fun x => x.2.flatMap x.1.outgoing

variable {routers : List Router}

theorem Queued.nil : Queued routers [] := ⟨[], by simp, rfl⟩

theorem Queued.append {os os' : List Outgoing} (h : Queued routers os) (h' : Queued routers os') :
    Queued routers (os ++ os') := by
  obtain ⟨given, hmem, rfl⟩ := h
  obtain ⟨given', hmem', rfl⟩ := h'
  refine ⟨given ++ given', fun x hx => ?_, by rw [List.flatMap_append]⟩
  exact (List.mem_append.mp hx).elim (hmem x) (hmem' x)

theorem Queued.of_router {r : Router} (h : r ∈ routers) (ms : List Message) :
    Queued routers (ms.flatMap r.outgoing) :=
  ⟨[(r, ms)], by simpa using h, by simp⟩

/-- While there is an outbox, it has got at its end what the routers have queued, and nothing was
produced to the topic. -/
def Scope.Held (routers : List Router) (name : String) (s s' : Scope κ) : Prop :=
  ∀ q, s.outbox = some q → ∃ new, Queued routers new ∧ s'.outbox = some (q ++ new) ∧
    Unsent name s.world s'.world

namespace Scope

theorem Held.of_kept {s s' : Scope κ} (ho : s'.outbox = s.outbox)
    (hu : s.outbox.isSome → Unsent name s.world s'.world) : Held routers name s s' := by
  intro q hq
  exact ⟨[], .nil, by rw [ho, hq, List.append_nil], hu (by rw [hq]; rfl)⟩

instance : Std.Refl (Held (κ := κ) routers name) :=
  ⟨fun s => .of_kept rfl fun _ => Std.Refl.refl s.world⟩

instance : IsTrans (Scope κ) (Held routers name) := by
  refine ⟨fun s t u h h' q hq => ?_⟩
  obtain ⟨first, hfirst, ht, hst⟩ := h q hq
  obtain ⟨second, hsecond, hu, htu⟩ := h' _ ht
  exact ⟨first ++ second, hfirst.append hsecond, by rw [hu, List.append_assoc],
    IsTrans.trans _ _ _ hst htu⟩

end Scope

/-! ## Routers -/

namespace Router

variable {s : Scope κ} {q : List Outgoing} {broker : Nat}

/-- With an outbox and its broker in service a router queues what it sends, in order, and nothing is
produced or stored. -/
theorem sendAll_queues (r : Router) (hq : s.outbox = some q)
    (hb : s.world.broker = some broker) (os : List Outgoing) :
    ∃ w, r.sendAll broker os s = .ok () ⟨w, some (q ++ os)⟩ ∧
      w = { s.world with producers := w.producers } := by
  induction os generalizing s q with
  | nil =>
    obtain ⟨world, outbox⟩ := s
    cases hq
    exact ⟨world, by rw [List.append_nil]; rfl, rfl⟩
  | cons o os ih =>
    let used := endState (World.useProducer (ε := ProduceError) broker o.endpoint) s.world
    have hused : used = { s.world with producers := used.producers } :=
      World.useProducer_kept broker o.endpoint s.world
    have hsend : r.send broker o s = .ok () ⟨used, some (q ++ [o])⟩ := by
      unfold send
      rw [if_pos hb, hq]
      rfl
    have hbroker : used.broker = some broker := by
      rw [hused]
      exact hb
    obtain ⟨w, hw, hkept⟩ := ih (s := ⟨used, some (q ++ [o])⟩) rfl hbroker
    refine ⟨w, ?_, hkept.trans (by dsimp only; rw [hused])⟩
    rw [List.append_assoc, List.singleton_append] at hw
    unfold sendAll
    rw [bind_of_ok hsend]
    exact hw

/-- A router whose broker was dropped sends nothing. -/
theorem sendAll_dropped (r : Router) (hb : s.world.broker ≠ some broker) (os : List Outgoing) :
    endState (r.sendAll broker os) s = s := by
  cases os with
  | nil => rfl
  | cons o os =>
    have hsend : r.send broker o s = .error (.behavior "broker has been dropped") s := by
      unfold send
      rw [if_neg hb]
    unfold sendAll
    exact endState_of_error (bind_of_error hsend)

/-- What a router is given it queues, or its broker was dropped and it queues nothing. -/
theorem sendAll_held {r : Router} (hr : r ∈ routers) (name : String) (broker : Nat)
    (ms : List Message) (s : Scope κ) :
    Scope.Held routers name s (endState (r.sendAll broker (ms.flatMap r.outgoing)) s) := by
  by_cases hb : s.world.broker = some broker
  · intro q hq
    obtain ⟨w, hw, hkept⟩ := r.sendAll_queues hq hb (ms.flatMap r.outgoing)
    have ht : w.transport = s.world.transport := by rw [hkept]
    unfold endState
    rw [hw]
    exact ⟨_, .of_router hr ms, rfl, .of_transport ht⟩
  · rw [r.sendAll_dropped hb]
    exact Std.Refl.refl s

/-- A router keeps what sending keeps. -/
theorem behavior_keeps_of {S : Scope κ → Scope κ → Prop} {r : Router}
    (h : ∀ broker (ms : List Message) s, S s (endState (r.sendAll broker (ms.flatMap r.outgoing)) s))
    (index : Int) : (r.behavior index : Behavior (Scope κ)).Keeps S := by
  intro broker mode next hnext ms
  refine .act (fun s => ?_) fun sent => ?_
  · have h := h broker ms s
    unfold endState at h
    cases hx : r.sendAll broker (ms.flatMap r.outgoing) s with
    | ok _ t => rw [hx] at h; exact h
    | error e t => rw [hx] at h; exact h
  · cases sent with
    | error e => exact .done _
    | ok _ =>
      dsimp only
      split
      · exact .done _
      · exact hnext _

/-- **A router only queues**, as long as there is an outbox. -/
theorem behavior_keeps {r : Router} (hr : r ∈ routers) (name : String) (index : Int) :
    (r.behavior index : Behavior (Scope κ)).Keeps (Scope.Held routers name) :=
  behavior_keeps_of (sendAll_held hr name) index

end Router

end Relay
