import Relay.Proofs.Consumer.Trail
import Relay.Proofs.Decision
import Relay.Proofs.Routing
import Relay.Proofs.Settlement
/-!
# A failed attempt leaves no trace

Up to its commit an attempt only looks things up in the stores. What it takes in, joins or parks
waits in the sessions of its transaction, what routers send out waits in the outbox, and all of that
goes with the transaction when the attempt fails. `World.Traceless name` says that two worlds have
the same stores and the same messages in the topic `name`.

**Discretion (`Worker.Discreet`, a hypothesis about the application).** Stages of its own, its handlers
and its behaviors, routers aside, write nothing to the stores and produce nothing past the outbox.

Results:
- `Attempted.step`: a step of an attempt is traceless until its commit begins.
- `Attempt.prepare_front`: what the pipeline takes in, its stages before decryption take in alone.
- `Attempt.prepare_again`: over the same stores, deduplication and chunk aggregation decide about
  the messages of a batch that is tried again as they did before.
- `Trail.failed_traceless`: an attempt that has failed, wherever it did, has left no trace, and the
  next one decides the same about every message.
-/
namespace Relay

open World (Alike Unsent)

variable {κ : Type} {name : String}

/-! ## Worlds without a trace -/

namespace World

/-- The stores are the same, and nothing was produced to the topic. -/
structure Traceless (name : String) (w w' : World κ) : Prop where
  log : w'.log = w.log
  chunks : w'.chunks = w.chunks
  unsent : Unsent name w w'

instance : Std.Refl (Traceless (κ := κ) name) := ⟨fun w => ⟨rfl, rfl, Std.Refl.refl w⟩⟩

instance : IsTrans (World κ) (Traceless name) :=
  ⟨fun _ _ _ h h' => ⟨h'.log.trans h.log, h'.chunks.trans h.chunks,
    IsTrans.trans _ _ _ h.unsent h'.unsent⟩⟩

theorem Alike.traceless {w w' : World κ} (h : Alike w w') : Traceless name w w' :=
  ⟨h.log, h.chunks, .of_transport h.transport⟩

end World

open World (Traceless)

/-- While there is an outbox, it stays, and the world is left without a trace. -/
def Scope.Traceless (name : String) (s s' : Scope κ) : Prop :=
  s.outbox.isSome → s'.outbox.isSome ∧ World.Traceless name s.world s'.world

instance : Std.Refl (Scope.Traceless (κ := κ) name) := ⟨fun s ho => ⟨ho, Std.Refl.refl s.world⟩⟩

instance : IsTrans (Scope κ) (Scope.Traceless name) := by
  refine ⟨fun s t u h h' ho => ?_⟩
  obtain ⟨ht, hst⟩ := h ho
  obtain ⟨hu, htu⟩ := h' ht
  exact ⟨hu, IsTrans.trans _ _ _ hst htu⟩

/-- A router leaves no trace while there is an outbox. -/
theorem Router.behavior_traceless (r : Router) (index : Int) :
    (r.behavior index : Behavior (Scope κ)).Keeps (Scope.Traceless name) := by
  refine behavior_keeps_of (fun broker ms s ho => ?_) index
  obtain ⟨q, hq⟩ := Option.isSome_iff_exists.mp ho
  by_cases hb : s.world.broker = some broker
  · obtain ⟨w, hw, hkept⟩ := r.sendAll_queues hq hb (ms.flatMap r.outgoing)
    have hworld : Traceless name s.world w := by
      rw [hkept]
      exact ⟨rfl, rfl, .of_transport rfl⟩
    rw [endState, hw]
    exact ⟨rfl, hworld⟩
  · rw [r.sendAll_dropped hb]
    exact ⟨ho, Std.Refl.refl s.world⟩

/-! ## Up to the end of an attempt -/

/-- What the application has of its own leaves no trace up to the commit: its stages and their
rollbacks, and, routers aside, its behaviors and its handlers. -/
structure Worker.Discreet (name : String) (w : Worker κ) : Prop where
  pipeline : ∃ custom, w.service.pipeline = .create w.service.wire custom ∧
    ∀ st ∈ custom, st.Preserves (Inbox.Reverts (Traceless name))
  behaviors : ∀ b ∈ w.service.publisher.behaviors,
    (∃ (r : Router) (index : Int), b = r.behavior index) ∨ b.Keeps (Scope.Traceless name)
  methods : ∀ m ∈ w.service.publisher.methods, m.Keeps (Scope.Traceless name)

namespace Worker.Discreet

variable {w w' : Worker κ}

theorem of_service (h : w.Discreet name) (hs : w'.service = w.service) : w'.Discreet name :=
  ⟨by rw [hs]; exact h.pipeline, by rw [hs]; exact h.behaviors, by rw [hs]; exact h.methods⟩

theorem prepare (h : w.Discreet name) (ms : List RawMessage) :
    Within (Inbox.Reverts (Traceless name))
      (Attempt.prepare w.service.pipeline w.endpoint ms) := by
  obtain ⟨custom, hp, hc⟩ := h.pipeline
  rw [hp]
  have hT : Inbox.Allows (Inbox.Reverts (Traceless (κ := κ) name)) :=
    .of_alike fun _ _ ha => ha.traceless
  exact Attempt.prepare_within (Pipeline.create_preserves hT _ hc) w.endpoint ms

theorem publish (h : w.Discreet name) (ms : List Message) :
    (w.service.publisher.publish ms).Keeps (Scope.Traceless name) := by
  refine Publisher.publish_keeps (fun b hb => ?_) h.methods ms
  rcases h.behaviors b hb with ⟨r, index, rfl⟩ | hb
  · exact r.behavior_traceless index
  · exact hb

end Worker.Discreet

/-- The phase is in an attempt at the batch, and what goes on of it leaves no trace. -/
def Phase.Discreet (name : String) (batch : List RawMessage) : Phase κ → Prop
  | .attempting b _ => b = batch
  | .dispatching b _ tx flow =>
    b = batch ∧ tx.Reverts (Traceless name) ∧ flow.Keeps (Scope.Traceless name)
  | _ => False

namespace Worker

variable {w : Worker κ} {now : Nat} {world u : World κ} {batch b : List RawMessage} {k : UInt32}
  {tx : Transaction κ} {v : Option InboundError}

/-- Until an attempt is brought to its end it leaves no trace. -/
theorem Reaches.traceless (hw : w.Discreet name) (hphase : w.phase.Discreet name batch)
    (h : w.Reaches now world b k tx u v) :
    b = batch ∧ tx.Reverts (Traceless name) ∧ Traceless name world u := by
  have hfresh : ({} : Transaction κ).Reverts (Traceless name) := fun _ hr => by cases hr
  cases h with
  | refused hb hp =>
    rw [hb] at hphase
    have ha := (hw.prepare b).error hp
    exact ⟨hphase, ha.resources hfresh, ha.world⟩
  | nothing hb hp =>
    rw [hb] at hphase
    have ha := (hw.prepare b).ok hp
    exact ⟨hphase, ha.resources hfresh, ha.world⟩
  | @published tx flow r s hb hpoll =>
    rw [hb] at hphase
    obtain ⟨hbatch, htx, hflow⟩ := hphase
    have hs := (hflow.poll now ⟨world, some tx.outbox⟩).1
    rw [hpoll] at hs
    exact ⟨hbatch, htx, (hs rfl).2⟩

end Worker

/-- What has become of the attempt at a batch that was to begin in `t`: it goes on, or it is over and
has left no trace if it failed, or its publish has panicked. -/
inductive Attempted (name : String) (batch : List RawMessage) (t t' : Trail κ) : Prop
  | running (htried : t'.tried = t.tried) (hworld : Traceless name t.world t'.world)
    (hphase : t'.worker.phase.Discreet name batch)
  | finished {a : Tried κ} {later : List (Tried κ)} (htried : t'.tried = t.tried ++ a :: later)
    (hworld : ∀ e, a.outcome = .failed e → Traceless name t.world a.world)
  | panicked (htried : t'.tried = t.tried) (hphase : t'.worker.phase = .panicked)

namespace Attempted

variable {batch : List RawMessage} {t t' t'' : Trail κ}

/-- A step of the worker in the attempt. -/
theorem turn {now : Nat} {w' : Worker κ} {world' : World κ} {a : Option (Tried κ)}
    (hw : t'.worker.Discreet name) (htried : t'.tried = t.tried)
    (hworld : Traceless name t.world t'.world) (hphase : t'.worker.phase.Discreet name batch)
    (h : t'.worker.Turn now t'.world w' world' a) :
    Attempted name batch t ⟨w', world', t'.tried ++ a.toList⟩ := by
  have hnone : t'.tried ++ (none : Option (Tried κ)).toList = t.tried := by
    rw [← htried]
    exact List.append_nil _
  cases h with
  | @ended b k tx u v h =>
    obtain ⟨-, htx, hu⟩ := h.traceless hw hphase
    have hfinished : t'.tried ++ [t'.worker.closes b k tx u v] =
        t.tried ++ t'.worker.closes b k tx u v :: [] := by rw [htried]
    refine .finished hfinished fun e he => ?_
    rw [Worker.closes_failed he]
    exact IsTrans.trans _ _ _ (IsTrans.trans _ _ _ hworld hu) (Transaction.rollback_reverts htx u)
  | launched hb hp =>
    rw [hb] at hphase
    have ha := (hw.prepare _).ok hp
    have htx := ha.resources fun _ hr => by cases hr
    exact .running hnone (IsTrans.trans _ _ _ hworld ha.world) ⟨hphase, htx, hw.publish _⟩
  | @polled _ _ tx _ _ _ hb hpoll =>
    rw [hb] at hphase
    obtain ⟨hbatch, htx, hflow⟩ := hphase
    obtain ⟨hs, hk⟩ := hflow.poll now ⟨t'.world, some tx.outbox⟩
    rw [hpoll] at hs hk
    exact .running hnone (IsTrans.trans _ _ _ hworld (hs rfl).2) ⟨hbatch, htx, hk⟩
  | panicked => exact .panicked hnone rfl
  | stopped hb =>
    rw [hb] at hphase
    cases hphase
  | woken hb =>
    rw [hb] at hphase
    cases hphase
  | waiting hb =>
    rw [hb] at hphase
    cases hphase

/-- Every step keeps it so. -/
theorem step (h : Attempted name batch t t') (hw : t'.worker.Discreet name)
    (hs : Trail.Step (Traceless name) t' t'') : Attempted name batch t t'' := by
  cases h with
  | running htried hworld hphase =>
    cases hs with
    | work now hb => exact turn hw htried hworld hphase (Worker.turn now t'.world hb)
    | others hr => exact .running htried (IsTrans.trans _ _ _ hworld hr) hphase
    | cancel => exact .running htried hworld hphase
    | abandon => exact .running htried hworld hphase
  | @finished a later htried hworld =>
    cases hs with
    | work now hb =>
      have hfinished : (t'.work now).tried =
          t.tried ++ a :: (later ++ (t'.worker.tried? now t'.world).toList) := by
        change t'.tried ++ _ = _
        rw [htried, List.append_assoc, List.cons_append]
      exact .finished hfinished hworld
    | others => exact .finished htried hworld
    | cancel => exact .finished htried hworld
    | abandon => exact .finished htried hworld
  | panicked htried hphase =>
    cases hs with
    | work now hb => rw [hphase] at hb; cases hb
    | others => exact .panicked htried hphase
    | cancel => exact .panicked htried hphase
    | abandon => exact .panicked htried hphase

end Attempted

/-! ## Another attempt -/

/-- Two inboxes with one transaction, over the same stores. -/
structure Inbox.Peers (s t : Inbox κ) : Prop where
  transaction : t.transaction = s.transaction
  log : t.world.log = s.world.log
  chunks : t.world.chunks = s.world.chunks

/-- The two messages are one, the second of them marked with a number of failures. -/
def Message.Marked (failed : UInt32) (m m' : Message) : Prop :=
  ∃ raw : RawEnvelope, m = .inbound raw none true ∧ m' = .inbound { raw with
    headers := raw.headers.insert Headers.failedAttempts (toString failed.toNat) } none true

namespace Pipeline

variable {raw : RawEnvelope} {r : Option Message} {e : InboundError} {s t s' t' : Inbox κ}

/-- What the stages before decryption hand on. -/
def handed (raw : RawEnvelope) (x : Bytes × Headers) : Message :=
  .inbound { raw with payload := x.1, headers := x.2 } none true

theorem front_process_ok (h : front.process raw s = .ok r t) :
    (∃ position, ChunkHeaders.read raw.headers = .ok position) ∧
      ∃ o, Intake s.world.log s.world.chunks raw s.transaction o t.transaction ∧
        Alike s.world t.world ∧ r = o.map (handed raw) := by
  obtain ⟨p, u, hp, h1⟩ := bind_ok h
  obtain ⟨hread, o, v, hin, hw, ho⟩ := front_ok hp
  refine ⟨hread, o, ?_⟩
  cases o with
  | none =>
    obtain ⟨rfl, rfl⟩ := ho
    cases h1
    exact ⟨hin, hw, rfl⟩
  | some x =>
    cases ho
    cases h1
    exact ⟨hin, hw, rfl⟩

theorem front_process_error {position : Option ChunkHeaders}
    (hread : ChunkHeaders.read raw.headers = .ok position)
    (h : front.process raw s = .error e t) : e.Refused := by
  rcases bind_error h with hp | ⟨p, u, -, h1⟩
  · rcases front_error hp with ⟨⟨e', he⟩ | hrefused, -⟩ | ⟨payload, headers, u, -, -, hrun⟩
    · rw [hread] at he
      cases he
    · exact hrefused
    · cases hrun
  · cases h1

/-- What the pipeline gets through without stages of the application's own, its stages before
decryption get through in the same way. -/
theorem process_front {wire : Wire} (h : (create wire []).process raw s = .ok r t) :
    ∃ r', front.process raw s = .ok r' t := by
  obtain ⟨p, u, hp, h1⟩ := bind_ok h
  cases h1
  rw [create_stages] at hp
  change run (.chunkAggregation :: .deduplication :: lastStages wire) _ s = _ at hp
  rw [run_front] at hp
  obtain ⟨q, v, hq, h2⟩ := bind_ok hp
  -- the other stages leave the transaction and the world alone
  have hlast : Within Eq (run (lastStages wire) { q with accepted := false } : Inbound κ _) := by
    refine run_within (fun st hst => ?_) _
    rcases List.mem_append.mp hst with hst | hst
    · rw [Option.toList_map] at hst
      obtain ⟨c, -, rfl⟩ := List.mem_map.mp hst
      exact Stage.decryption_preserves c
    · rw [List.mem_singleton.mp hst]
      exact Stage.deserialization_preserves _
  have hvt : v = t := by
    split at h2
    · exact hlast.ok h2
    · cases h2
      rfl
  refine ⟨if q.accepted then some (.inbound q.envelope q.message true) else none, ?_⟩
  rw [← hvt]
  exact bind_of_ok hq

/-- A message that comes again is decided about as before, unless a store refuses a look-up. -/
theorem front_again (h : s.Peers t) (failed : UInt32) (hs : front.process raw s = .ok r s') :
    let again := { raw with
      headers := raw.headers.insert Headers.failedAttempts (toString failed.toNat) }
    (∃ r' t', front.process again t = .ok r' t' ∧ s'.Peers t' ∧
      List.Forall₂ (Message.Marked failed) r.toList r'.toList) ∨
    ∃ e t', front.process again t = .error e t' ∧ e.Refused := by
  intro again
  obtain ⟨⟨position, hread⟩, o, hin, hsw, rfl⟩ := front_process_ok hs
  have hmarked := hin.insert ChunkHeaders.foreign_failedAttempts (toString failed.toNat)
  cases ht : front.process again t with
  | error e t' =>
    have hread' : ChunkHeaders.read again.headers = .ok position :=
      (ChunkHeaders.read_insert _ ChunkHeaders.foreign_failedAttempts _).trans hread
    exact Or.inr ⟨e, t', rfl, front_process_error hread' ht⟩
  | ok r' t' =>
    obtain ⟨-, o', hin', htw, rfl⟩ := front_process_ok ht
    rw [h.log, h.chunks, h.transaction] at hin'
    obtain ⟨rfl, htx⟩ := hmarked.unique hin'
    refine Or.inl ⟨_, t', rfl, ⟨htx, ?_, ?_⟩, ?_⟩
    · rw [htw.log, h.log, hsw.log]
    · rw [htw.chunks, h.chunks, hsw.chunks]
    · cases o with
      | none => exact .nil
      | some x => exact .cons ⟨{ raw with payload := x.1, headers := x.2 }, rfl, rfl⟩ .nil

end Pipeline

namespace Attempt

variable {endpoint : Endpoint} {ms : List RawMessage} {handed : List Message} {s t s' : Inbox κ}

/-- What the pipeline gets through without stages of the application's own leaves the transaction
that its stages before decryption leave. -/
theorem prepare_front {wire : Wire} {out : List Message}
    (h : prepare (.create wire []) endpoint ms s = .ok out s') :
    ∃ handed, prepare Pipeline.front endpoint ms s = .ok handed s' := by
  induction ms generalizing out s with
  | nil =>
    cases h
    exact ⟨[], rfl⟩
  | cons m ms ih =>
    obtain ⟨raw, first, rest, v, hraw, hfirst, hrest, rfl⟩ := prepare_cons_ok h
    obtain ⟨first', hfirst'⟩ := Pipeline.process_front hfirst
    obtain ⟨rest', hrest'⟩ := ih hrest
    rw [prepare_cons _ hraw, bind_of_ok hfirst', bind_of_ok hrest']
    exact ⟨_, rfl⟩

/-- **A batch that is tried again is decided about as before**, message by message, unless a store
refuses a look-up. -/
theorem prepare_again (h : s.Peers t) (failed : UInt32)
    (hs : prepare Pipeline.front endpoint ms s = .ok handed s') :
    (∃ handed' t', prepare Pipeline.front endpoint (marked failed ms) t = .ok handed' t' ∧
      s'.Peers t' ∧ List.Forall₂ (Message.Marked failed) handed handed') ∨
    ∃ e t', prepare Pipeline.front endpoint (marked failed ms) t = .error e t' ∧ e.Refused := by
  induction ms generalizing handed s t with
  | nil =>
    cases hs
    exact Or.inl ⟨[], t, rfl, h, .nil⟩
  | cons m ms ih =>
    obtain ⟨raw, first, rest, v, hraw, hfirst, hrest, rfl⟩ := prepare_cons_ok hs
    have hraw' := RawEnvelope.ofMessage_insert hraw
      (by decide : sameName Headers.failedAttempts Headers.messageId = false)
      (toString failed.toNat)
    have hprep := prepare_cons (κ := κ) Pipeline.front hraw' (marked failed ms)
    change prepare Pipeline.front endpoint (marked failed (m :: ms)) = _ at hprep
    rw [hprep]
    rcases Pipeline.front_again h failed hfirst with
      ⟨first', v', hfirst', hv, hmarked⟩ | ⟨e, t', he, hrefused⟩
    · rw [bind_of_ok hfirst']
      rcases ih hv hrest with ⟨rest', x', hrest', hx, hmarkeds⟩ | ⟨e, t', he, hrefused⟩
      · rw [bind_of_ok hrest']
        exact Or.inl ⟨_, x', rfl, hx, List.rel_append hmarked hmarkeds⟩
      · rw [bind_of_error he]
        exact Or.inr ⟨e, t', rfl, hrefused⟩
    · rw [bind_of_error he]
      exact Or.inr ⟨e, t', rfl, hrefused⟩

end Attempt

namespace Trail

/-- **A failed attempt leaves no trace.** In whatever state it began, at whichever message it failed
and whatever had been parked, joined or logged in its transaction, once it is rolled back the log and
the chunk store are what they were when it began, and no message that was routed has come to a
topic. So another attempt at the batch makes the same aggregation and deduplication decisions: the
transaction is the same after each message, and so are the messages handed on, apart from the
number of failures in their headers, as long as the stores answer the look-ups. -/
theorem failed_traceless {t t' : Trail κ} {batch : List RawMessage} {k : UInt32} {a : Tried κ}
    {e : InboundError} (hw : t.worker.Discreet name) (hphase : t.worker.phase = .attempting batch k)
    (hs : Steps (Traceless name) t t') (ha : t'.tried = t.tried ++ [a])
    (he : a.outcome = .failed e) :
    Traceless name t.world a.world ∧
      ∀ (failed : UInt32) (world : World κ), Traceless name a.world world →
        ∀ ms handed s,
          Attempt.prepare Pipeline.front t.worker.endpoint ms ⟨{}, t.world⟩ = .ok handed s →
          (∃ handed' s', Attempt.prepare Pipeline.front t.worker.endpoint
              (Attempt.marked failed ms) ⟨{}, world⟩ = .ok handed' s' ∧
            s'.transaction = s.transaction ∧
            List.Forall₂ (Message.Marked failed) handed handed') ∨
          ∃ e s', Attempt.prepare Pipeline.front t.worker.endpoint
            (Attempt.marked failed ms) ⟨{}, world⟩ = .error e s' ∧ e.Refused := by
  have hrun : Attempted name batch t t' ∧ t'.worker.service = t.worker.service := by
    clear ha
    induction hs with
    | refl =>
      refine ⟨.running rfl (Std.Refl.refl _) ?_, rfl⟩
      rw [hphase]
      exact rfl
    | tail _ hstep ih =>
      exact ⟨ih.1.step (hw.of_service ih.2) hstep, hstep.fixed.2.2.trans ih.2⟩
  have htraceless : Traceless name t.world a.world := by
    cases hrun.1 with
    | running htried => simp [htried] at ha
    | panicked htried => simp [htried] at ha
    | finished htried hworld =>
      rw [htried, List.append_cancel_left_eq, List.cons.injEq] at ha
      rw [← ha.1]
      exact hworld e (by rw [ha.1]; exact he)
  refine ⟨htraceless, fun failed world hworld ms handed s hprep => ?_⟩
  have hfrom : Traceless name t.world world := IsTrans.trans _ _ _ htraceless hworld
  have hpeers : Inbox.Peers ⟨{}, t.world⟩ ⟨{}, world⟩ := ⟨rfl, hfrom.log, hfrom.chunks⟩
  rcases Attempt.prepare_again hpeers failed hprep with
    ⟨handed', s', hok, hpeers, hmarked⟩ | hrefused
  · exact Or.inl ⟨handed', s', hok, hpeers.transaction, hmarked⟩
  · exact Or.inr hrefused

/-- A chunk of `b`, then the second chunk of `a`, in which no known message is. -/
def halfRead : List RawMessage :=
  [⟨[5], ⟨[(Headers.messageId, "b"), (Headers.chunkIndex, "0"), (Headers.chunksCount, "2")]⟩, none⟩,
    ⟨[2], ⟨[(Headers.messageId, "a"), (Headers.chunkIndex, "1"), (Headers.chunksCount, "2")]⟩, none⟩]

/-- A consumer about to try them, with the first chunk of `a` in the store. -/
def halfReading : Trail Unit where
  worker :=
    { endpoint := ⟨"orders", none, []⟩
      settings := {}
      service :=
        { broker := 0, wire := ⟨.empty, none⟩, pipeline := ⟨Pipeline.builtIn ⟨.empty, none⟩⟩
          publisher := ⟨[], [], .standard, [], 0, 0⟩, connectRetries := 0 }
      stream := ⟨"orders", [], 0, 0, false⟩
      phase := .attempting halfRead 0 }
  world := { log := .memory [], chunks := .memory [⟨"a", 0, 2, [1]⟩] }

theorem failed_traceless_joined :
    ∃ a, (halfReading.work 0).tried = [a] ∧
      a.outcome = .failed (.serialization .missingTypeHeader) ∧ a.world.log = .memory [] ∧
      a.world.chunks = .memory [⟨"a", 0, 2, [1]⟩] ∧ a.world.transport.produced "orders" = [] := by
  have hw : halfReading.worker.Discreet "orders" :=
    ⟨⟨[], congrArg Pipeline.mk (Pipeline.create_stages _).symm, fun _ hst => nomatch hst⟩,
      (fun _ hb => nomatch hb), fun _ hm => nomatch hm⟩
  have hs : Steps (Traceless "orders") halfReading (halfReading.work 0) := .single (.work 0 rfl)
  have houtcome : (halfReading.work 0).tried.map Tried.outcome =
      [.failed (.serialization .missingTypeHeader)] := by decide +kernel
  obtain ⟨a, later, ha, he, hlater⟩ := List.map_eq_cons_iff.mp houtcome
  rw [List.map_eq_nil_iff.mp hlater] at ha
  have htraceless := (failed_traceless hw rfl hs ha he).1
  exact ⟨a, ha, he, htraceless.log, htraceless.chunks, htraceless.unsent⟩

end Trail

end Relay
