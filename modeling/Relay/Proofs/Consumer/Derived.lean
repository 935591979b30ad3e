import Relay.Proofs.Consumer.Course
import Relay.Proofs.Consumer.Trail
import Relay.Proofs.Producer
import Relay.Proofs.Routing
/-!
# Messages derived from a batch

What routers send out while a batch is dispatched waits in the outbox of the attempt, which begins
empty. A commit produces what waits, each message once and in order; a rollback produces nothing.
So of a batch whose commits all succeed only the attempt that commits is to be seen on a topic, and
it is the last one (`Trail.derived_once`). A commit that stops half-way through its outbox has
produced the messages before the one that failed (`Trail.derived_twice`).

Results:
- `flush_sent`: what the commit of an outbox produces to a topic.
- `Worker.resolve_moved`: what may be produced after the last attempt, if the batch is moved.
- `Trail.routed`: what waits in the outboxes of a batch was queued by routers.
- `Trail.derived_once`: all that the attempts at a batch produce to a topic.
- `Trail.derived_twice`: what a commit that stops half-way leaves behind.
-/
namespace Relay

open World (Alike Stores Unsent)

variable {κ ε α : Type} {name : String}

/-! ## Inbound processing and the outbox -/

/-- Nothing was put into the outbox. -/
def Inbox.Still (s t : Inbox κ) : Prop := t.transaction.outbox = s.transaction.outbox

instance : Std.Refl (Inbox.Still (κ := κ)) := ⟨fun _ => rfl⟩

instance : IsTrans (Inbox κ) Inbox.Still := ⟨fun _ _ _ h h' => Eq.trans h' h⟩

theorem Inbound.onWorld_still (f : ε → InboundError) (o : Op κ ε α) :
    Within Inbox.Still (onWorld f o) :=
  onWorld_within (R := Anything) (fun _ => trivial) fun _ _ _ _ => rfl

theorem Inbox.Still.allows : Inbox.Allows (Inbox.Still (κ := κ)) where
  contains _ _ := within_bind within_get fun _ => Inbound.onWorld_still _ _
  aggregate _ := within_bind within_get fun _ => within_bind (Inbound.onWorld_still _ _) fun _ =>
    within_bind (within_modify fun _ => rfl) fun _ => within_pure _
  add _ _ := within_modify fun _ => rfl

/-! ## What is produced to a topic -/

/-- The raw messages are what goes on the wire for the message, under its id or a new one. -/
def Outgoing.Encodes (wire : Wire) (o : Outgoing) (raws : List RawMessage) : Prop :=
  ∃ id packed headers,
    wire.pack o.message (o.headers.insertIfMissing Headers.messageId id) = .ok (packed, headers) ∧
      raws.map RawMessage.parcel = parcels o.endpoint packed headers

/-- The raw messages are what goes on the wire for those of the messages that go to the topic, each
once and in order. -/
def Sent (wire : Wire) (name : String) (os : List Outgoing) (raws : List RawMessage) : Prop :=
  ∃ each, List.Forall₂ (Outgoing.Encodes wire) (os.filter fun o => o.endpoint.name = name) each ∧
    raws = each.flatten

namespace World

variable {endpoint : Endpoint}

theorem produce_unsent (hn : endpoint.name ≠ name) (payload : Bytes) (h : Headers) :
    Within (Unsent name) (produce endpoint payload h : Op κ TransportError Unit) :=
  produce_within ((guardTransport_alike _ _).mono fun _ _ h => .of_transport h.transport)
    fun _ _ hp => Transport.produce_elsewhere hp hn

/-- A produce that fails has produced nothing. -/
theorem produce_refused {payload : Bytes} {h : Headers} {e : TransportError} {w w' : World κ}
    (hp : produce endpoint payload h w = .error e w') : Unsent name w w' := by
  rcases bind_error hp with hg | ⟨_, u, hg, h1⟩
  · exact .of_transport ((guardTransport_alike _ _).error hg).transport
  have hu : Alike w u := (guardTransport_alike _ _).ok hg
  rw [bind_get] at h1
  rcases bind_error h1 with ht | ⟨t, _, _, h2⟩
  · rw [(Op.ofExcept_error.mp ht).2]
    exact .of_transport hu.transport
  · cases h2

theorem posts_unsent (hn : endpoint.name ≠ name) : Posts (Unsent (κ := κ) name) endpoint :=
  ⟨fun _ => rfl, produce_unsent hn⟩

theorem acknowledge_unsent (endpoint : Endpoint) (offsets : List String) :
    Within (Unsent name) (acknowledge endpoint offsets : Op κ TransportError Unit) := by
  refine within_bind ((guardTransport_alike _ _).mono fun _ _ h => .of_transport h.transport)
    fun _ => within_bind ((record_alike _).mono fun _ _ h => .of_transport h.transport) fun _ => ?_
  intro w
  change Unsent name w
    (endState (Op.ofExcept (w.transport.acknowledge endpoint.name offsets) >>= _) w)
  cases ha : w.transport.acknowledge endpoint.name offsets with
  | error e => exact Std.Refl.refl w
  | ok t =>
    change t.produced name = w.transport.produced name
    unfold Transport.acknowledge at ha
    split at ha
    · cases ha
    · next v hv =>
      cases ha
      unfold Transport.produced
      rw [Transport.topic_setTopic]
      split
      · next hn => rw [← hn, Transport.topic, hv]; rfl
      · rfl

end World

/-- **What the commit of an outbox produces.** -/
theorem flush_sent (name : String) {wire : Wire} {os : List Outgoing} {w w' : World κ}
    (h : flush wire os w = .ok () w') :
    ∃ raws, w'.transport.produced name = w.transport.produced name ++ raws ∧
      Sent wire name os raws := by
  induction os generalizing w with
  | nil =>
    cases h
    exact ⟨[], (List.append_nil _).symm, [], .nil, rfl⟩
  | cons o os ih =>
    obtain ⟨id, u, hu, hrest⟩ := bind_ok h
    have hu := Op.mapError_ok.mp hu
    obtain ⟨raws, hraws, each, heach, rfl⟩ := ih hrest
    by_cases hn : o.endpoint.name = name
    · obtain ⟨packed, headers, first, hpack, -, hfirst, hmap⟩ := World.send_ok hu
      rw [hn] at hfirst
      refine ⟨first ++ each.flatten, by rw [hraws, hfirst, List.append_assoc], first :: each, ?_, rfl⟩
      rw [List.filter_cons_of_pos (by simpa using hn)]
      exact .cons ⟨id, packed, headers, hpack, hmap⟩ heach
    · have hkept : Unsent name w u := ((World.posts_unsent hn).send wire).ok hu
      refine ⟨each.flatten, by rw [hraws, hkept], each, ?_, rfl⟩
      rw [List.filter_cons_of_neg (by simpa using hn)]
      exact heach

/-- What the commit of a transaction produces. -/
theorem Transaction.commit_sent {wire : Wire} {tx : Transaction κ} (htx : tx.Along (Unsent name))
    {w w' : World κ} (h : tx.commit wire w = .ok () w') :
    ∃ raws, w'.transport.produced name = w.transport.produced name ++ raws ∧
      Sent wire name tx.outbox raws := by
  obtain ⟨u, hflush, hrest⟩ := Resource.commitAll_ok h
  have hkept : Within (Unsent name) (Resource.commitAll tx.storing) :=
    Resource.commitAll_within (storing_along (fun _ _ h => h.unsent) htx)
  obtain ⟨raws, hraws, hsent⟩ := flush_sent name hflush
  exact ⟨raws, (hkept.ok hrest).trans hraws, hsent⟩

/-! ## What is produced after the last attempt -/

namespace Settlement

variable {endpoint target : Endpoint} {ms settled : List RawMessage} {tx : Transaction κ}
  {w u : World κ}

/-- Moving produces messages one after the other, up to the first that fails. -/
theorem move_produced (source target : Endpoint) (failed : UInt32) (ms : List RawMessage)
    (w : World κ) :
    ∃ moved, (endState (move source target failed ms) w).transport.produced target.name =
        w.transport.produced target.name ++ moved ∧
      moved.map RawMessage.parcel <+:
        ms.map fun m => (m.payload, movedHeaders source failed m.headers) := by
  induction ms generalizing w with
  | nil => exact ⟨[], (List.append_nil _).symm, List.prefix_rfl⟩
  | cons m ms ih =>
    unfold move
    cases hp : (World.produce target m.payload (movedHeaders source failed m.headers) :
        Op κ TransportError Unit) w with
    | error e v =>
      refine ⟨[], ?_, List.nil_prefix⟩
      rw [endState_of_error (bind_of_error hp), List.append_nil]
      exact World.produce_refused hp
    | ok _ v =>
      obtain ⟨raw, hraw, hparcel⟩ := World.produce_produced hp
      obtain ⟨moved, hmoved, hprefix⟩ := ih v
      refine ⟨raw :: moved, ?_, ?_⟩
      · rw [endState, bind_of_ok hp]
        change (endState (move source target failed ms) v).transport.produced target.name = _
        rw [hmoved, hraw, List.append_assoc, List.singleton_append]
      · rw [List.map_cons, List.map_cons, hparcel]
        exact List.cons_prefix_cons.mpr ⟨rfl, hprefix⟩

/-- The transaction of a settled batch has nothing to produce. -/
theorem batch_empty {wire : Wire} (h : batch wire endpoint ms w = .ok (settled, tx) u) :
    tx.outbox = [] ∧ tx.resources = [] := by
  have hmany := batch_ok.mp h
  obtain ⟨htaken, -⟩ := many_ok hmany
  exact ⟨(many_within Inbox.Still.allows endpoint ms).ok hmany,
    (htaken.sound (Transaction.sound_empty _)).resources⟩

end Settlement

namespace Attempt

variable {endpoint target : Endpoint} {ms : List RawMessage} {failed : UInt32}

theorem acknowledge_unsent (endpoint : Endpoint) (ms : List RawMessage) :
    Within (Unsent name) (acknowledge endpoint ms : Op κ TransportError Unit) :=
  acknowledge_within (World.acknowledge_unsent endpoint) ms

/-- The commit of a settled batch, and its acknowledgement. -/
theorem finish_unsent {tx : Transaction κ} (ho : tx.outbox = []) (hr : tx.resources = [])
    (wire : Wire) (endpoint : Endpoint) (ms : List RawMessage) :
    Within (Unsent name) ((tx.commit wire).mapError StoreError.message >>= fun _ =>
      (acknowledge endpoint ms).mapError TransportError.message : Op κ String Unit) := by
  have hflush : Within (Unsent name) (flush wire tx.outbox : Op κ StoreError Unit) := by
    rw [ho]
    exact within_pure ()
  have halong : tx.Along (Unsent name) := fun r hm => by rw [hr] at hm; cases hm
  have hcommit := Transaction.commit_along (fun _ _ h => h.unsent) hflush halong
  exact within_bind (Op.within_mapError hcommit) fun _ =>
    Op.within_mapError (acknowledge_unsent endpoint ms)

/-- A batch that is skipped produces nothing. -/
theorem skip_unsent (s : Service κ) (endpoint : Endpoint) (ms : List RawMessage) :
    Within (Unsent name) (skip s endpoint ms) := by
  intro w
  have hbatch : Within Stores (Settlement.batch s.wire endpoint ms : Op κ InboundError _) :=
    Settlement.batch_stores s.wire endpoint ms
  refine endState_bind (P := Unsent name w) (Op.within_mapError hbatch w).unsent ?_
  rintro ⟨settled, tx⟩ u hu hw
  obtain ⟨ho, hr⟩ := Settlement.batch_empty (Op.mapError_ok.mp hu)
  exact IsTrans.trans _ _ _ hw (finish_unsent ho hr s.wire endpoint ms u)

section
variable {s : Service κ} {settled : List RawMessage} {tx : Transaction κ} {w u : World κ}

/-- Nothing is produced before the messages of a settled batch are moved. -/
theorem used_unsent (hu : Settlement.batch s.wire endpoint ms w = .ok (settled, tx) u) :
    Unsent name w (endState (World.useProducer (ε := TransportError) s.broker target) u) := by
  have hbatch : Stores w u := (Settlement.batch_stores s.wire endpoint ms).ok hu
  have hkept := World.useProducer_kept (ε := TransportError) s.broker target u
  exact IsTrans.trans _ _ _ hbatch.unsent (.of_transport (by rw [hkept]))

/-- Nothing is produced after they were moved or one could not be. -/
theorem moved_unsent (hu : Settlement.batch s.wire endpoint ms w = .ok (settled, tx) u) :
    Unsent name
      (endState (Settlement.move endpoint target failed settled)
        (endState (World.useProducer (ε := TransportError) s.broker target) u))
      (endState (move s endpoint target failed ms) w) := by
  obtain ⟨ho, hr⟩ := Settlement.batch_empty hu
  have hrollback : Within (Unsent name) (tx.rollback s.wire) :=
    Transaction.rollback_along fun r hm => by rw [hr] at hm; cases hm
  rw [endState_congr (move_eq s hu)]
  refine endState_bind (P := Unsent name _) ?_ fun o y hy hxy => ?_
  · rw [Op.endState_attempt]
    exact Std.Refl.refl _
  · refine IsTrans.trans _ _ _ hxy ?_
    cases o with
    | ok _ => exact finish_unsent ho hr s.wire endpoint ms y
    | error e => exact within_bind (Op.within_attempt hrollback) (fun _ => within_throw _) y

end

/-- The messages are those of a batch that was moved to the topic, some from its beginning on. -/
def Moves (s : Service κ) (endpoint target : Endpoint) (failed : UInt32) (ms : List RawMessage)
    (w : World κ) (name : String) (moved : List RawMessage) : Prop :=
  target.name = name ∧ ∃ settled tx u,
    Settlement.batch s.wire endpoint ms w = .ok (settled, tx) u ∧
    moved.map RawMessage.parcel <+:
      settled.map fun m => (m.payload, Settlement.movedHeaders endpoint failed m.headers)

/-- **What moving a batch produces** are its own messages, and none to another topic. -/
theorem move_moves (name : String) (s : Service κ) (endpoint target : Endpoint)
    (failed : UInt32) (ms : List RawMessage) (w : World κ) :
    ∃ moved, (endState (move s endpoint target failed ms) w).transport.produced name =
        w.transport.produced name ++ moved ∧
      (moved = [] ∨ Moves s endpoint target failed ms w name moved) := by
  have hbatch : Within Stores (Settlement.batch s.wire endpoint ms : Op κ InboundError _) :=
    Settlement.batch_stores s.wire endpoint ms
  cases hu : Settlement.batch s.wire endpoint ms w with
  | error e u =>
    refine ⟨[], ?_, Or.inl rfl⟩
    unfold move
    rw [endState_of_error (bind_of_error (Op.mapError_error.mpr ⟨e, hu, rfl⟩)), List.append_nil]
    exact (hbatch.error hu).unsent
  | ok r u =>
    obtain ⟨settled, tx⟩ := r
    let v := endState (World.useProducer (ε := TransportError) s.broker target) u
    let x := endState (Settlement.move endpoint target failed settled) v
    have hwv : Unsent name w v := used_unsent hu
    have hrest : Unsent name x (endState (move s endpoint target failed ms) w) := moved_unsent hu
    by_cases hn : target.name = name
    · obtain ⟨moved, hmoved, hprefix⟩ := Settlement.move_produced endpoint target failed settled v
      rw [hn] at hmoved
      exact ⟨moved, by rw [hrest, hmoved, hwv], Or.inr ⟨hn, settled, tx, u, hu, hprefix⟩⟩
    · have hx : Unsent name v x := (World.posts_unsent hn).move endpoint failed settled v
      exact ⟨[], by rw [hrest, hx, hwv, List.append_nil], Or.inl rfl⟩

end Attempt

namespace Worker

variable {w : Worker κ} {now n : Nat} {a : Tried κ}

/-- **What is produced after an attempt** is what is moved, if the policy has the batch moved. -/
theorem resolve_moved (name : String) (w : Worker κ) (now : Nat) (hk : a.failed + 1 = UInt32.ofNat n) :
    ∃ moved, (w.resolve now a).2.transport.produced name =
        a.world.transport.produced name ++ moved ∧
      (moved = [] ∨ ∃ e target, a.outcome.error? = some e ∧ e.isFatal = false ∧
        Policy.decideWith w.settings.policy (UInt32.ofNat n) = .ok (.move target) ∧
        Attempt.Moves w.service w.endpoint target (UInt32.ofNat n) a.batch a.world name moved) := by
  have hnone : ∀ {world : World κ}, Unsent name a.world world →
      world.transport.produced name = a.world.transport.produced name ++ [] :=
    fun h => h.trans (List.append_nil _).symm
  cases he : a.outcome.error? with
  | none =>
    refine ⟨[], hnone ?_, Or.inl rfl⟩
    unfold resolve
    rw [he]
    dsimp only
    rw [Op.exec_world]
    exact Op.within_mapError (Attempt.acknowledge_unsent w.endpoint a.batch) a.world
  | some e =>
    rw [resolve_error he]
    cases hf : e.isFatal with
    | true =>
      rw [giveWay_fatal hf]
      exact ⟨[], hnone (Std.Refl.refl _), Or.inl rfl⟩
    | false =>
      cases hd : Policy.decideWith w.settings.policy (UInt32.ofNat n) with
      | error overflow =>
        rw [giveWay_overflow hf hk hd]
        exact ⟨[], hnone (Std.Refl.refl _), Or.inl rfl⟩
      | ok action =>
        rw [giveWay_decided hf hk hd]
        cases action with
        | retry delay =>
          refine ⟨[], hnone ?_, Or.inl rfl⟩
          dsimp only
          split <;> exact Std.Refl.refl a.world
        | skip =>
          refine ⟨[], hnone ?_, Or.inl rfl⟩
          dsimp only
          rw [Op.exec_world]
          exact Attempt.skip_unsent w.service w.endpoint a.batch a.world
        | move target =>
          obtain ⟨moved, hmoved, hmoves⟩ := Attempt.move_moves name w.service w.endpoint target
            (UInt32.ofNat n) a.batch a.world
          dsimp only
          rw [Op.exec_world]
          exact ⟨moved, hmoved, hmoves.imp id fun h => ⟨e, target, rfl, hf, rfl, h⟩⟩
        | fatal => exact ⟨[], hnone (Std.Refl.refl _), Or.inl rfl⟩

theorem closes_outbox (b : List RawMessage) (k : UInt32) (tx : Transaction κ) (u : World κ)
    (v : Option InboundError) : (w.closes b k tx u v).outbox = tx.outbox := by
  cases v with
  | some e => rfl
  | none =>
    unfold closes
    dsimp only
    split <;> rfl

/-- An attempt that has committed has produced what waited in its outbox. -/
theorem closes_sent {b : List RawMessage} {k : UInt32} {tx : Transaction κ} {u : World κ}
    {v : Option InboundError} (htx : tx.Along (Unsent name))
    (hc : (w.closes b k tx u v).outcome = .committed) :
    ∃ raws, (w.closes b k tx u v).world.transport.produced name =
        u.transport.produced name ++ raws ∧ Sent w.service.wire name tx.outbox raws := by
  cases v with
  | some e => cases hc
  | none =>
    cases hx : tx.commit w.service.wire u with
    | ok _ u' =>
      rw [closes_committed hx]
      exact Transaction.commit_sent htx hx
    | error e u' =>
      rw [closes_undone hx] at hc
      cases hc

end Worker

/-! ## The attempts at a batch -/

/-- What the application publishes comes to the topic through its routers, and those are given it on
the task that dispatches only. Other behaviors and custom stages leave the outbox and the topic alone,
and so do handlers, apart from what they await on the task: a blocking one with all that it publishes,
an asynchronous one with each of its own steps. -/
structure Worker.Defers (routers : List Router) (name : String) (w : Worker κ) : Prop where
  pipeline : ∃ custom, w.service.pipeline = .create w.service.wire custom ∧
    ∀ st ∈ custom, st.Keeps (Unsent name) ∧ st.Preserves Inbox.Still
  behaviors : ∀ b ∈ w.service.publisher.behaviors,
    (∃ r ∈ routers, ∃ index, b = r.behavior index) ∨ b.Keeps (Scope.Held routers name)
  methods : ∀ m ∈ w.service.publisher.methods,
    w.service.publisher.Carries (Scope.Held routers name) m

namespace Worker.Defers

variable {routers : List Router} {w w' : Worker κ}

theorem of_service (h : w.Defers routers name) (hs : w'.service = w.service) :
    w'.Defers routers name :=
  ⟨by rw [hs]; exact h.pipeline, by rw [hs]; exact h.behaviors, by rw [hs]; exact h.methods⟩

theorem publisher (h : w.Defers routers name) (ms : List Message) :
    (w.service.publisher.publish ms).Keeps (Scope.Held routers name) := by
  refine Publisher.publish_keeps_carried (fun b hb => ?_) h.methods ms
  rcases h.behaviors b hb with ⟨r, hr, index, rfl⟩ | hb
  · exact Router.behavior_keeps hr name index
  · exact hb

theorem along (h : w.Defers routers name) :
    w.Along (Unsent name) (Scope.Held routers name) where
  stores _ _ hs := hs.unsent
  scope s s' hs ho := by
    obtain ⟨q, hq⟩ := Option.isSome_iff_exists.mp ho
    obtain ⟨-, -, -, hu⟩ := hs q hq
    exact hu
  pipeline := by
    obtain ⟨custom, hp, hc⟩ := h.pipeline
    exact ⟨custom, hp, fun st hst => (hc st hst).1⟩
  publisher := h.publisher

/-- When its publish begins, an attempt has nothing in its outbox. -/
theorem prepare (h : w.Defers routers name) (ms : List RawMessage) :
    Within Inbox.Still (Attempt.prepare w.service.pipeline w.endpoint ms) := by
  obtain ⟨custom, hp, hc⟩ := h.pipeline
  rw [hp]
  exact Attempt.prepare_within
    (Pipeline.create_preserves Inbox.Still.allows _ fun st hst => (hc st hst).2) w.endpoint ms

end Worker.Defers

/-- What the application publishes comes to the topic through its routers only. Its other behaviors
and its handlers leave the outbox alone, and so do its custom stages; nothing of these produces to
the topic by itself. -/
structure Worker.Derives (routers : List Router) (name : String) (w : Worker κ) : Prop where
  pipeline : ∃ custom, w.service.pipeline = .create w.service.wire custom ∧
    ∀ st ∈ custom, st.Keeps (Unsent name) ∧ st.Preserves Inbox.Still
  behaviors : ∀ b ∈ w.service.publisher.behaviors,
    (∃ r ∈ routers, ∃ index, b = r.behavior index) ∨ b.Keeps (Scope.Held routers name)
  methods : ∀ m ∈ w.service.publisher.methods, m.Keeps (Scope.Held routers name)

theorem Worker.Derives.defers {routers : List Router} {w : Worker κ} (h : w.Derives routers name) :
    w.Defers routers name :=
  ⟨h.pipeline, h.behaviors, fun m hm _ hself => (h.methods m hm).by_self hself⟩

namespace Trail

variable {routers : List Router} {w : Worker κ} {batch : List RawMessage} {world : World κ}
  {t t' : Trail κ}

/-- What waits in the outboxes of the attempts was queued by routers. -/
structure Routed (routers : List Router) (t : Trail κ) : Prop where
  ended : ∀ a ∈ t.tried, Queued routers a.outbox
  running : ∀ b k tx flow, t.worker.phase = .dispatching b k tx flow → Queued routers tx.outbox

end Trail

namespace Worker

variable {routers : List Router} {w w' : Worker κ} {batch : List RawMessage} {now n : Nat}
  {world world' : World κ}

/-- Nothing but the end of the pipeline begins a publish. -/
theorem resolve_undispatched (now : Nat) (a : Tried κ) (b : List RawMessage) (k : UInt32)
    (tx : Transaction κ) (flow : Work (Scope κ) Published) :
    (w.resolve now a).1 ≠ .dispatching b k tx flow := by
  have hfinished : ∀ r, (finished r : Phase κ) ≠ .dispatching b k tx flow := by
    intro r
    cases r <;> exact nofun
  unfold resolve
  split
  · unfold giveWay
    split
    · exact nofun
    · dsimp only
      split
      · exact nofun
      · split <;> exact nofun
      · exact hfinished _
      · exact hfinished _
      · exact nofun
  · exact hfinished _

/-- What a poll of a publish leaves in the outbox. -/
theorem polled_queued {tx : Transaction κ} {flow flow' : Work (Scope κ) Published} {s : Scope κ}
    (hflow : flow.Keeps (Scope.Held routers name)) (hq : Queued routers tx.outbox)
    (hpoll : flow.poll now ⟨world, some tx.outbox⟩ = (flow', s)) :
    Queued routers (s.outbox.getD []) := by
  have hs := (hflow.poll now ⟨world, some tx.outbox⟩).1
  rw [hpoll] at hs
  obtain ⟨new, hnew, hout, -⟩ := hs _ rfl
  rw [hout]
  exact hq.append hnew

theorem Reaches.queued {b : List RawMessage} {k : UInt32} {tx : Transaction κ} {u : World κ}
    {e : Option InboundError}
    (hw : ∀ ms, Within Inbox.Still (Attempt.prepare w.service.pipeline w.endpoint ms))
    (hphase : w.phase.Along (Unsent name) (Scope.Held routers name))
    (hrunning : ∀ b k tx flow, w.phase = .dispatching b k tx flow → Queued routers tx.outbox)
    (h : w.Reaches now world b k tx u e) : Queued routers tx.outbox := by
  cases h with
  | refused _ hp =>
    rw [(hw _).error hp]
    exact .nil
  | nothing _ hp =>
    rw [(hw _).ok hp]
    exact .nil
  | published hb hpoll =>
    rw [hb] at hphase
    exact polled_queued hphase.2 (hrunning _ _ _ _ hb) hpoll

end Worker

namespace Trail

variable {routers : List Router} {w : Worker κ} {batch : List RawMessage} {world : World κ}
  {t : Trail κ}

/-- A step of the worker fills the outbox with what routers queue. -/
theorem Routed.turn {now n : Nat} {w' : Worker κ} {world' : World κ} {a : Option (Tried κ)}
    (hw : ∀ ms, Within Inbox.Still
      (Attempt.prepare t.worker.service.pipeline t.worker.endpoint ms))
    (hphase : t.worker.phase.Holds (Unsent name) (Scope.Held routers name) batch n)
    (ht : t.Routed routers) (h : t.worker.Turn now t.world w' world' a) :
    Routed routers ⟨w', world', t.tried ++ a.toList⟩ := by
  have hover : ∀ a ∈ t.tried ++ (none : Option (Tried κ)).toList, Queued routers a.outbox := by
    simpa using ht.ended
  cases h with
  | ended h =>
    refine ⟨fun a ha => ?_, fun b k tx flow hb => ?_⟩
    · rcases List.mem_append.mp ha with ha | ha
      · exact ht.ended a ha
      · cases List.mem_singleton.mp ha
        rw [Worker.closes_outbox]
        exact h.queued hw hphase.along ht.running
    · exact absurd hb (Worker.resolve_undispatched _ _ _ _ _ _)
  | launched _ hp =>
    refine ⟨hover, fun b k tx flow hb => ?_⟩
    cases hb
    rw [(hw _).ok hp]
    exact .nil
  | polled hb hpoll =>
    rw [hb] at hphase
    refine ⟨hover, fun b' k' tx' flow' hb' => ?_⟩
    cases hb'
    exact Worker.polled_queued hphase.2.2 (ht.running _ _ _ _ hb) hpoll
  | panicked => exact ⟨hover, fun _ _ _ _ hb => by cases hb⟩
  | stopped => exact ⟨hover, fun _ _ _ _ hb => by cases hb⟩
  | woken => exact ⟨hover, fun _ _ _ _ hb => by cases hb⟩
  | waiting => exact ⟨hover, ht.running⟩

/-- **What waits in the outboxes** of a batch was queued by routers, in every state that its worker
reaches. -/
theorem routed (hw : w.Derives routers name)
    (ht : Steps (Unsent name) (start w batch world) t) : t.Routed routers := by
  induction ht with
  | refl =>
    refine ⟨fun a ha => ?_, fun b k tx flow hb => ?_⟩
    · cases ha
    · cases hb
  | @tail t t' ht hs ih =>
    cases hs with
    | work now hb =>
      obtain ⟨hsame, hstanding⟩ := standing hw.defers.along batch world ht
      have hprepare : ∀ ms, Within Inbox.Still
          (Attempt.prepare t.worker.service.pipeline t.worker.endpoint ms) := by
        rw [hsame.service, hsame.endpoint]
        exact hw.defers.prepare
      exact ih.turn hprepare (hstanding.of_busy hb).1 (Worker.turn _ _ hb)
    | others => exact ⟨ih.ended, ih.running⟩
    | cancel => exact ⟨ih.ended, ih.running⟩
    | abandon => exact ⟨ih.ended, ih.running⟩

/-- Only the last of the attempts can have committed. -/
theorem committed_last {R : World κ → World κ → Prop} {S : Scope κ → Scope κ → Prop}
    (h : Standing R S w world batch t) {n : Nat} {a : Tried κ} (ha : t.tried[n]? = some a)
    (hc : a.outcome = .committed) : n + 1 = t.tried.length := by
  have hmem := List.mem_of_getElem? ha
  cases h with
  | busy _ htried => exact absurd hc (htried.uncommitted hmem)
  | @closed before k tx u v now heq _ htried =>
    rw [heq] at ha ⊢
    obtain ⟨hn, -⟩ := List.getElem?_eq_some_iff.mp ha
    rw [List.length_append, List.length_singleton] at hn ⊢
    by_cases hlt : n < before.length
    · rw [List.getElem?_append_left hlt] at ha
      exact absurd hc (htried.uncommitted (List.mem_of_getElem? ha))
    · omega
  | panicked _ htried => exact absurd hc (htried.uncommitted hmem)
  | stopped _ _ htried => exact absurd hc (htried.uncommitted hmem)

/-- All that the attempts at a batch have produced to the topic: what was derived from it, and what
was moved. -/
structure Produces (w : Worker κ) (name : String) (world : World κ) (t : Trail κ)
    (derived moved : List RawMessage) : Prop where
  log : t.world.transport.produced name = world.transport.produced name ++ derived ++ moved
  committed : ∀ a, t.tried.getLast? = some a → a.outcome = .committed →
    Sent w.service.wire name a.outbox derived ∧ moved = []
  uncommitted : (∀ a, t.tried.getLast? = some a → a.outcome ≠ .committed) → derived = []
  moved : moved ≠ [] → ∃ a e target, t.tried.getLast? = some a ∧ a.outcome = .failed e ∧
    e.isFatal = false ∧
    Policy.decideWith w.settings.policy (UInt32.ofNat t.tried.length) = .ok (.move target) ∧
    Attempt.Moves w.service w.endpoint target (UInt32.ofNat t.tried.length) a.batch a.world name moved

/-- A batch none of whose attempts has committed or closed it. -/
theorem Produces.nothing {policy : Option Policy} (hu : Unsent name world t.world)
    (htried : Retried policy batch t.tried) : t.Produces w name world [] [] where
  log := by rw [hu]; simp
  committed a ha hc := absurd hc (htried.uncommitted (List.mem_of_getLast? ha))
  uncommitted _ := rfl
  moved h := absurd rfl h

/-- A batch whose last attempt has committed its outbox or produced nothing. -/
theorem Produces.resolved {a : Tried κ} {u : World κ} {now : Nat}
    (hlast : t.tried.getLast? = some a) (hk : a.failed + 1 = UInt32.ofNat t.tried.length)
    (hclosed : ∀ e, a.outcome ≠ .undone e) (hu : Unsent name world u)
    (hsent : a.outcome = .committed → ∃ raws, a.world.transport.produced name =
      u.transport.produced name ++ raws ∧ Sent w.service.wire name a.outbox raws)
    (hkept : a.outcome ≠ .committed → Unsent name u a.world)
    (hr : Unsent name (w.resolve now a).2 t.world) :
    ∃ derived moved, t.Produces w name world derived moved := by
  obtain ⟨moved, hmoved, hmoves⟩ := Worker.resolve_moved name w now hk
  by_cases hc : a.outcome = .committed
  · obtain ⟨raws, hraws, hsent⟩ := hsent hc
    -- a batch that has succeeded is not moved
    have hnone : moved = [] := by
      refine hmoves.resolve_right ?_
      rintro ⟨e, -, he, -⟩
      rw [hc] at he
      cases he
    refine ⟨raws, [], ?_, ?_, ?_, fun h => absurd rfl h⟩
    · rw [hr, hmoved, hraws, hu, hnone]
    · intro a' ha' _
      cases hlast.symm.trans ha'
      exact ⟨hsent, rfl⟩
    · exact fun h => absurd hc (h a hlast)
  · refine ⟨[], moved, ?_, ?_, fun _ => rfl, fun hne => ?_⟩
    · rw [hr, hmoved, hkept hc, hu, List.append_nil]
    · intro a' ha' hc'
      cases hlast.symm.trans ha'
      exact absurd hc' hc
    · obtain ⟨e, target, he, hf, hd, hm⟩ := hmoves.resolve_left hne
      refine ⟨a, e, target, hlast, ?_, hf, hd, hm⟩
      cases ho : a.outcome with
      | committed => exact absurd ho hc
      | failed e' => rw [ho] at he; cases he; rfl
      | undone e' => exact absurd ho (hclosed e')

/-- What a batch has produced that its last attempt has closed. -/
theorem closed_produces {before : List (Tried κ)} {k : UInt32} {tx : Transaction κ}
    {u : World κ} {v : Option InboundError} {now : Nat}
    (heq : t.tried = before ++ [w.closes (Attempt.seen before.length batch) k tx u v])
    (hk : k.toNat = before.length) (htx : tx.Along (Unsent name))
    (hcommits : ∀ a ∈ t.tried, ∀ e, a.outcome ≠ .undone e) (hu : Unsent name world u)
    (hr : Unsent name
      (w.resolve now (w.closes (Attempt.seen before.length batch) k tx u v)).2 t.world) :
    ∃ derived moved, t.Produces w name world derived moved := by
  have hlast : t.tried.getLast? = some (w.closes (Attempt.seen before.length batch) k tx u v) := by
    rw [heq]
    exact List.getLast?_concat
  have hnext : (w.closes (Attempt.seen before.length batch) k tx u v).failed + 1 =
      UInt32.ofNat t.tried.length := by
    rw [(w.closes_batch _ k tx u v).2, heq, List.length_append, List.length_singleton]
    exact Worker.next_failed hk
  have hcalm : Calm (Unsent name) w.service.wire
      (before ++ [w.closes (Attempt.seen before.length batch) k tx u v]) := Or.inr (heq ▸ hcommits)
  refine Produces.resolved hlast hnext (hcommits _ (List.mem_of_getLast? hlast)) hu ?_
    (Worker.closes_along htx hcalm) hr
  rw [w.closes_outbox]
  exact Worker.closes_sent htx

/-- **Messages derived from a batch are produced once**, in every state that its worker reaches
while nothing else produces to the topic, as long as every commit that an attempt comes to
succeeds. At most the last attempt has committed. Routers only put messages at the end of the
outbox of the attempt in progress. What the commit produces to the topic is what waited there, each
message once and in order; without a commit there is nothing, and beyond that there is only what
was moved. -/
theorem derived_once (hw : w.Derives routers name)
    (ht : Steps (Unsent name) (start w batch world) t)
    (hcommits : ∀ a ∈ t.tried, ∀ e, a.outcome ≠ .undone e) :
    (∀ n a, t.tried[n]? = some a → a.outcome = .committed → n + 1 = t.tried.length) ∧
      (∀ a ∈ t.tried, Queued routers a.outbox) ∧
      (∀ b k tx flow, t.worker.phase = .dispatching b k tx flow → Queued routers tx.outbox ∧
        ∀ now, Scope.Held routers name ⟨t.world, some tx.outbox⟩
          (flow.poll now ⟨t.world, some tx.outbox⟩).2) ∧
      ∃ derived moved, t.Produces w name world derived moved := by
  obtain ⟨hsame, h⟩ := standing hw.defers.along batch world ht
  have hrouted := routed hw ht
  have hcalm : Calm (Unsent name) w.service.wire t.tried := Or.inr hcommits
  refine ⟨fun n a ha hc => committed_last h ha hc, hrouted.ended, fun b k tx flow hb => ?_, ?_⟩
  · obtain ⟨hphase, -, -⟩ := h.of_busy (by rw [hb]; rfl)
    rw [hb] at hphase
    exact ⟨hrouted.running b k tx flow hb, fun now => (hphase.2.2.poll now _).1⟩
  · cases h with
    | busy _ htried hr => exact ⟨[], [], .nothing (hr hcalm) htried⟩
    | closed heq hk _ _ htx hu _ hr =>
      refine closed_produces heq hk htx hcommits (hu (Or.inr fun a ha => hcommits a ?_)) hr
      rw [heq]
      exact List.mem_append_left _ ha
    | panicked _ htried hr => exact ⟨[], [], .nothing (hr hcalm) htried⟩
    | stopped _ _ htried hr => exact ⟨[], [], .nothing (hr hcalm) htried⟩

/-! ### Messages derived from one message -/

open Course (emptyWorld)

/-- A record without content. -/
def blank (name : String) : Record := ⟨⟨name, [], []⟩, ()⟩

/-- Records of two types are known on the wire. -/
def knownWire : Wire := ⟨.ofList [(⟨"Ping", [], []⟩, "ping"), (⟨"Pong", [], []⟩, "pong")], none⟩

/-- Everything published is sent to one endpoint. -/
def toPayments : Router := ⟨knownWire, [⟨.any, ⟨"payments", none, []⟩, false⟩]⟩

/-- A handler that publishes the records and then fails, as often as it is told to. -/
def answering (records : List Record) (failures : Nat) : Method (Scope Unit) where
  name := "answer"
  handler := .async fun _ self => (self.publish (records.map .record)).bind fun _ =>
    .act (fun s => (s.world.notes.length, s.note ())) fun n =>
      .done (if n < failures then .error "not yet" else .ok none)

/-- A consumer that tries a batch twice at most and then skips it. -/
def answerer (records : List Record) (failures : Nat) : Worker Unit where
  endpoint := ⟨"orders", none, []⟩
  settings := { policy := some (.chain [.retry ⟨2, 0, 0⟩, .skip]) }
  service :=
    { broker := 0, wire := knownWire, pipeline := ⟨Pipeline.builtIn knownWire⟩
      publisher := ⟨[toPayments.behavior], [answering records failures], .standard, [], 0, 2⟩
      connectRetries := 0 }
  stream := ⟨"orders", [], 0, 0, false⟩

theorem answerer_derives (records : List Record) (failures : Nat) :
    (answerer records failures).Derives [toPayments] name where
  pipeline := ⟨[], congrArg Pipeline.mk (Pipeline.create_stages _).symm, fun _ h => by cases h⟩
  behaviors b hb :=
    Or.inl ⟨toPayments, List.mem_singleton_self _, Router.sortIndex, List.mem_singleton.mp hb⟩
  methods m hm := by
    cases List.mem_singleton.mp hm
    intro call self hself
    exact (hself _).bind fun _ =>
      .act (fun s => .of_kept rfl fun _ => rfl) fun n => .done _

/-- A message without content. -/
def pinging : RawMessage :=
  ⟨[0x7B, 0x7D], ⟨[(Headers.messageId, "a"), (Headers.messageType, "ping")]⟩, some "0"⟩

/-- The consumer after two attempts at the message, each with its publish. -/
def answered (records : List Record) (failures : Nat) : Trail Unit :=
  ((((start (answerer records failures) [pinging] emptyWorld).work 0).work 0).work 0).work 0

/-- Both attempts publish a record. The first one then fails, the second one commits, and the record
is produced once. -/
theorem derived_once_retried :
    Steps (Unsent "payments") (start (answerer [blank "Pong"] 1) [pinging] emptyWorld)
        (answered [blank "Pong"] 1) ∧
      ((answered [blank "Pong"] 1).tried.map fun a => (a.outcome, a.outbox.length)) =
        [(.failed (.dispatch (.handler "answer" "not yet")), 1), (.committed, 1)] ∧
      ∃ a, (answered [blank "Pong"] 1).tried.getLast? = some a ∧
        Sent knownWire "payments" a.outbox
          ((answered [blank "Pong"] 1).world.transport.produced "payments") := by
  have hsteps : Steps (Unsent "payments") (start (answerer [blank "Pong"] 1) [pinging] emptyWorld)
      (answered [blank "Pong"] 1) :=
    (((Relation.ReflTransGen.single (.work 0 rfl)).tail (.work 0 rfl)).tail (.work 0 rfl)).tail
      (.work 0 rfl)
  have htried : ((answered [blank "Pong"] 1).tried.map fun a => (a.outcome, a.outbox.length)) =
      [(.failed (.dispatch (.handler "answer" "not yet")), 1), (.committed, 1)] := by
    decide +kernel
  have hcommits : ∀ a ∈ (answered [blank "Pong"] 1).tried, ∀ e, a.outcome ≠ .undone e := by
    intro a ha e he
    have hmem := List.mem_map_of_mem (f := fun a => (a.outcome, a.outbox.length)) ha
    rw [htried, he] at hmem
    simp at hmem
  obtain ⟨-, -, -, derived, moved, hproduces⟩ :=
    derived_once (answerer_derives _ _) hsteps hcommits
  have hlast := congrArg List.getLast? htried
  rw [List.getLast?_map] at hlast
  obtain ⟨a, ha, hc⟩ := Option.map_eq_some_iff.mp hlast
  obtain ⟨hsent, hnone⟩ := hproduces.committed a ha (congrArg Prod.fst hc)
  refine ⟨hsteps, htried, a, ha, ?_⟩
  have hbefore : emptyWorld.transport.produced "payments" = [] := rfl
  rw [hproduces.log, hnone, hbefore, List.nil_append, List.append_nil]
  exact hsent

/-- Though no store and no produce is made to fail, the first of two messages is produced by both
attempts at a batch that is then skipped: the second one cannot be serialized, and the commit of
the outbox stops there. -/
theorem derived_twice :
    (answerer [blank "Pong", blank "Lost"] 0).Derives [toPayments] "payments" ∧
      (answerer [blank "Pong", blank "Lost"] 0).settings.validate = .ok () ∧
      emptyWorld.rules = [] ∧ emptyWorld.transport.failOnProduce = false ∧
      Steps (Unsent "payments")
        (start (answerer [blank "Pong", blank "Lost"] 0) [pinging] emptyWorld)
        (answered [blank "Pong", blank "Lost"] 0) ∧
      ((answered [blank "Pong", blank "Lost"] 0).tried.map fun a => a.outcome.error?.isSome) =
        [true, true] ∧
      (answered [blank "Pong", blank "Lost"] 0).worker.phase.isBusy = false ∧
      ((answered [blank "Pong", blank "Lost"] 0).world.transport.topic "orders").acknowledged =
        ["0"] ∧
      ((answered [blank "Pong", blank "Lost"] 0).world.transport.produced "payments").map
        RawMessage.payload = [[0x7B, 0x7D], [0x7B, 0x7D]] := by
  have hsteps : Steps (Unsent "payments")
      (start (answerer [blank "Pong", blank "Lost"] 0) [pinging] emptyWorld)
      (answered [blank "Pong", blank "Lost"] 0) :=
    (((Relation.ReflTransGen.single (.work 0 rfl)).tail (.work 0 rfl)).tail
      (.work 0 (by decide +kernel))).tail (.work 0 (by decide +kernel))
  exact ⟨answerer_derives _ _, rfl, rfl, rfl, hsteps, by decide +kernel, by decide +kernel,
    by decide +kernel, by decide +kernel⟩

end Trail

end Relay
