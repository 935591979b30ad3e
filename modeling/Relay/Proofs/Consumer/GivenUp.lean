import Relay.Proofs.Consumer.Attempt
import Relay.Proofs.Consumer.BatchLoop
import Relay.Proofs.Consumer.Derived
import Relay.Proofs.Ledger
import Relay.Proofs.Settlement
/-!
# Batches that are given up

A batch that the error policy has skipped or moved is settled by the ledger of the stores. What is
settled of it goes to the target, if it is moved, before anything is committed; so a produce that
fails leaves the stores as they were (`Attempt.move_refused`). Once the settlement is committed, the
stores hold what `Ledger.after` says (`Attempt.skip_ok`, `move_ok`). Nothing is assumed of what the
application, its stages and its handlers have done in the attempts before, or others meanwhile.

Results:
- `Attempt.move_gains`: what the target has got once everything was produced.
- `GivenUp.of_settles`: what the ledger says of logged messages and of chunk sets.
- `Trail.given_up`: the effect of the step that gives a batch up.
-/
namespace Relay

open World (Acked Aside Silent Stores Unsent)

variable {κ : Type} {name : String}

/-! ## Settling, committing and acknowledging -/

namespace Settlement

variable {endpoint target : Endpoint} {wire : Wire} {ms settled : List RawMessage}
  {tx : Transaction κ} {w u : World κ}

/-- What a settled batch leaves to be produced and to be committed. -/
theorem batch_follows (h : batch wire endpoint ms w = .ok (settled, tx) u) :
    settled = w.ledger.settled endpoint ms ∧
      tx.shown u.log u.chunks = w.ledger.after endpoint ms ∧ tx.Exact u.log u.chunks := by
  have hw := (Attempt.batch_spec h).1
  have hmany := many_follows (batch_ok.mp h) (Transaction.exact_empty _ _)
  dsimp only at hmany
  rwa [Transaction.shown_empty, ← hw.log, ← hw.chunks] at hmany

/-- What is produced where nothing fails. -/
theorem move_ok {failed : UInt32} (h : move endpoint target failed ms w = .ok () u) :
    ∃ moved, u.transport.produced target.name = w.transport.produced target.name ++ moved ∧
      moved.map RawMessage.parcel =
        ms.map fun m => (m.payload, movedHeaders endpoint failed m.headers) := by
  induction ms generalizing w with
  | nil =>
    cases h
    exact ⟨[], (List.append_nil _).symm, rfl⟩
  | cons m ms ih =>
    obtain ⟨_, v, hp, hrest⟩ := bind_ok h
    obtain ⟨raw, hraw, hparcel⟩ := World.produce_produced hp
    obtain ⟨moved, hmoved, hmap⟩ := ih hrest
    refine ⟨raw :: moved, ?_, ?_⟩
    · rw [hmoved, hraw, List.append_assoc, List.singleton_append]
    · rw [List.map_cons, List.map_cons, hparcel, hmap]

end Settlement

namespace Attempt

variable {endpoint target : Endpoint} {ms : List RawMessage} {failed : UInt32} {w w' : World κ}

theorem acknowledge_acked (h : acknowledge endpoint ms w = .ok () w') :
    Acked endpoint.name (offsets ms) w w' := by
  refine ⟨?_, (acknowledge_ok h).2.2⟩
  unfold acknowledge at h
  split at h
  · next he =>
    cases h
    rw [if_pos he]
  · next he =>
    rw [if_neg he]
    exact World.acknowledge_calls h

/-- The stores hold what the ledger says of the messages, and these are acknowledged. -/
structure Settles (endpoint : Endpoint) (ms : List RawMessage) (w w' : World κ) : Prop where
  ledger : w'.ledger = w.ledger.after endpoint ms
  acked : Acked endpoint.name (offsets ms) w w'

/-- The commit of a settled batch, and its acknowledgement. -/
theorem finish_ok {wire : Wire} {tx : Transaction κ} (hx : tx.Exact w.log w.chunks)
    (hr : tx.resources = [])
    (h : ((tx.commit wire).mapError StoreError.message >>= fun _ =>
      (acknowledge endpoint ms).mapError TransportError.message) w = .ok () w') :
    w'.ledger = tx.shown w.log w.chunks ∧ Acked endpoint.name (offsets ms) w w' := by
  obtain ⟨_, u, hc, hk⟩ := bind_ok h
  have hc := Op.mapError_ok.mp hc
  have hk := Op.mapError_ok.mp hk
  have halong : tx.Along (Silent endpoint.name) := fun r hm => by rw [hr] at hm; cases hm
  have hsilent : Silent endpoint.name w u := (tx.commit_silent wire halong).ok hc
  obtain ⟨hlog, hchunks, -⟩ := acknowledge_ok hk
  exact ⟨(World.ledger_eq hlog hchunks).trans (Transaction.commit_ledger hx hr hc),
    (acknowledge_acked hk).of_silent hsilent (Std.Refl.refl _)⟩

/-- **What a batch leaves that is skipped.** -/
theorem skip_ok (s : Service κ) (h : skip s endpoint ms w = .ok () w') :
    Settles endpoint ms w w' := by
  obtain ⟨⟨settled, tx⟩, u, hu, hrest⟩ := bind_ok h
  have hu := Op.mapError_ok.mp hu
  obtain ⟨-, hshown, hx⟩ := Settlement.batch_follows hu
  obtain ⟨hledger, hacked⟩ := finish_ok hx (Settlement.batch_empty hu).2 hrest
  have hs : Stores w u := (Settlement.batch_stores s.wire endpoint ms).ok hu
  exact ⟨hledger.trans hshown, hacked.of_silent hs.silent (Std.Refl.refl _)⟩

/-- **What a batch leaves that is moved.** -/
theorem move_ok (s : Service κ) (hp : Produces s endpoint target failed ms w)
    (h : move s endpoint target failed ms w = .ok () w') : Settles endpoint ms w w' := by
  obtain ⟨settled, tx, u, v, hu, hv⟩ := hp
  obtain ⟨-, hshown, hx⟩ := Settlement.batch_follows hu
  rw [move_eq s hu, bind_of_ok (Op.attempt_eq _ _), Op.exec_ok.mpr hv] at h
  -- producing leaves the stores as they are
  have hsends : World.Sends u v := IsTrans.trans _ _ _
    (World.useProducer_sends (ε := TransportError) s.broker target u)
    ((Settlement.move_sends endpoint target failed settled).ok hv)
  rw [← hsends.log, ← hsends.chunks] at hshown hx
  obtain ⟨hledger, hacked⟩ := finish_ok hx (Settlement.batch_empty hu).2 h
  have hs : Stores w u := (Settlement.batch_stores s.wire endpoint ms).ok hu
  exact ⟨hledger.trans hshown,
    hacked.of_silent (IsTrans.trans _ _ _ hs.silent hsends.silent) (Std.Refl.refl _)⟩

/-- **What the target has got** once everything was produced. -/
theorem move_gains (s : Service κ) (hp : Produces s endpoint target failed ms w) :
    ∃ moved, (endState (move s endpoint target failed ms) w).transport.produced target.name =
        w.transport.produced target.name ++ moved ∧
      moved.map RawMessage.parcel = (w.ledger.settled endpoint ms).map fun m =>
        (m.payload, Settlement.movedHeaders endpoint failed m.headers) := by
  obtain ⟨settled, tx, u, v, hu, hv⟩ := hp
  obtain ⟨rfl, -, -⟩ := Settlement.batch_follows hu
  obtain ⟨moved, hmoved, hmap⟩ := Settlement.move_ok hv
  have hrest : Unsent target.name
      (endState (Settlement.move endpoint target failed _)
        (endState (World.useProducer (ε := TransportError) s.broker target) u))
      (endState (move s endpoint target failed ms) w) := moved_unsent hu
  rw [endState, hv] at hrest
  exact ⟨moved, by rw [hrest, hmoved, used_unsent hu], hmap⟩

/-- Nothing is produced to other topics. -/
theorem move_elsewhere (s : Service κ) (hn : target.name ≠ name) :
    Unsent name w (endState (move s endpoint target failed ms) w) := by
  obtain ⟨moved, hmoved, hmoves⟩ := move_moves name s endpoint target failed ms w
  have hnone : moved = [] := hmoves.resolve_right fun h => hn h.1
  rw [hnone, List.append_nil] at hmoved
  exact hmoved

/-- **A batch that could not be moved leaves the stores as they were.** -/
theorem move_refused (s : Service κ) (hp : ¬ Produces s endpoint target failed ms w) :
    Aside name w (endState (move s endpoint target failed ms) w) := by
  cases hu : Settlement.batch s.wire endpoint ms w with
  | error e u =>
    unfold move
    rw [endState_of_error (bind_of_error (Op.mapError_error.mpr ⟨e, hu, rfl⟩))]
    exact batch_aside hu
  | ok r u =>
    obtain ⟨settled, tx⟩ := r
    obtain ⟨hw, hs, -⟩ := batch_spec hu
    have hused : Aside name u
        (endState (World.useProducer (ε := TransportError) s.broker target) u) :=
      World.useProducer_aside s.broker target u
    cases hv : Settlement.move endpoint target failed settled
        (endState (World.useProducer (ε := TransportError) s.broker target) u) with
    | ok _ v => exact absurd ⟨settled, tx, u, v, hu, hv⟩ hp
    | error e v =>
      have hmoved : Aside name u v := IsTrans.trans _ _ _ hused
        ((Settlement.move_aside endpoint target failed settled).error hv)
      have hroll : Within (Aside name) (tx.rollback s.wire) :=
        Transaction.rollback_aside hs.resources
      rw [endState_congr (move_eq s hu)]
      refine endState_bind (P := Aside name w) ?_ fun o y hy hwy => ?_
      · rw [Op.endState_attempt, endState_of_error hv]
        exact IsTrans.trans _ _ _ hw.aside hmoved
      · rw [Op.attempt_eq, Op.exec_error.mpr hv] at hy
        cases hy
        exact IsTrans.trans _ _ _ hwy
          (within_bind (Op.within_attempt hroll) (fun _ => within_throw _) v)

end Attempt

/-! ## Marked batches -/

namespace Ledger

variable {endpoint : Endpoint} (L : Ledger) (n : Nat) (ms : List RawMessage)

/-- The ledger is the same for every attempt. -/
theorem after_seen : L.after endpoint (Attempt.seen n ms) = L.after endpoint ms := by
  unfold Attempt.seen
  split
  · rfl
  · exact after_marked L _ ms

/-- What is moved is marked with the last failure only. -/
theorem settled_seen (source : Endpoint) (failed : UInt32) :
    (L.settled endpoint (Attempt.seen n ms)).map (fun m =>
        (m.payload, Settlement.movedHeaders source failed m.headers)) =
      (L.settled endpoint ms).map fun m =>
        (m.payload, Settlement.movedHeaders source failed m.headers) := by
  unfold Attempt.seen
  split
  · rfl
  · rw [settled_marked]
    unfold Attempt.marked Settlement.movedHeaders
    rw [List.map_map]
    refine List.map_congr_left fun m _ => ?_
    dsimp only [Function.comp]
    rw [Headers.insert_insert]

end Ledger

/-- What a batch has left that was given up: messages that went on are logged, and of the chunk sets
those that were joined are gone while of the others every chunk is there, whether it was parked
before or came with the batch. -/
structure GivenUp (endpoint : Endpoint) (batch : List RawMessage) (w w' : World κ) : Prop where
  ledger : w'.ledger = w.ledger.after endpoint batch
  logged : ∀ m ∈ w.ledger.settled endpoint batch, ∀ id,
    m.headers.get? Headers.messageId = some id → ⟨id, endpoint.name⟩ ∈ w'.log.items
  joined : ∀ id, w.ledger.Joins endpoint batch id → ∀ c ∈ w'.chunks.items, c.messageId ≠ id
  incomplete : ∀ c, c ∈ w.chunks.items ∨ w.ledger.Parks endpoint batch c →
    ¬ w.ledger.Joins endpoint batch c.messageId → c ∈ w'.chunks.items
  acked : Acked endpoint.name (Attempt.offsets batch) w w'

/-- **What the ledger says** of the batch holds of the stores. -/
theorem GivenUp.of_settles {endpoint : Endpoint} {batch : List RawMessage} {n : Nat}
    {w w' : World κ} (h : Attempt.Settles endpoint (Attempt.seen n batch) w w') :
    GivenUp endpoint batch w w' := by
  have hledger : w'.ledger = w.ledger.after endpoint batch :=
    h.ledger.trans (Ledger.after_seen _ _ _)
  have hlog : w'.log.items = (w.ledger.after endpoint batch).logged := congrArg Ledger.logged hledger
  have hchunks : w'.chunks.items = (w.ledger.after endpoint batch).parked :=
    congrArg Ledger.parked hledger
  refine ⟨hledger, fun m hm id hid => ?_, fun id hid => ?_, fun c hc hj => ?_, ?_⟩
  · rw [hlog]
    exact Ledger.settled_logged hm hid
  · rw [hchunks]
    exact Ledger.joins_gone hid
  · rw [hchunks]
    exact Ledger.unjoined_kept hc hj
  · have hacked := h.acked
    rwa [Attempt.offsets_seen] at hacked

/-- Once nothing has failed the batch was given up, and nothing fails where the stores and the
transport oblige. -/
structure Concluded (endpoint : Endpoint) (batch : List RawMessage) (w : World κ) (phase : Phase κ)
    (w' : World κ) : Prop where
  givenUp : phase = .ready → GivenUp endpoint batch w w'
  ready : w.Obliging endpoint batch → phase = .ready

/-- The target has got what the batch was settled into, in order and marked with the number of
failures and the endpoint; no other topic has got anything. -/
structure Forwarded (source target : Endpoint) (failures : Nat) (batch : List RawMessage)
    (w w' : World κ) : Prop where
  moved : ∃ moved, w'.transport.produced target.name =
      w.transport.produced target.name ++ moved ∧
    moved.map RawMessage.parcel = (w.ledger.settled source batch).map fun m =>
      (m.payload, (m.headers.insert Headers.failedAttempts (toString failures)).insert
        Headers.sourceEndpoint source.name)
  content : ∀ m ∈ w.ledger.settled source batch, ∃ before delivered later,
    batch = before ++ delivered :: later ∧ (w.ledger.after source before).GoesOn delivered m
  elsewhere : ∀ name, target.name ≠ name → Unsent name w w'

/-- The stores are as they were, nothing was acknowledged on the topic, and the consumer has
stopped. -/
structure Withdrawn (name : String) (w : World κ) (phase : Phase κ) (w' : World κ) : Prop where
  log : w'.log = w.log
  chunks : w'.chunks = w.chunks
  silent : Silent name w w'
  stopped : ∃ reason, phase = .failed reason

/-! ## The step that gives a batch up -/

namespace Worker

variable {w w' : Worker κ} {now : Nat} {world world' : World κ} {a : Tried κ}

/-- Every consumer that has the built-in stages keeps to what holds of any two worlds. -/
theorem along_anything (hp : ∃ custom, w.service.pipeline = .create w.service.wire custom) :
    w.Along Anything Anything where
  stores _ _ _ := trivial
  scope _ _ _ _ := trivial
  pipeline := by
    obtain ⟨custom, hp⟩ := hp
    exact ⟨custom, hp, fun _ _ _ _ _ _ => ⟨trivial, fun _ _ _ =>
      ⟨fun _ => trivial, fun _ => trivial⟩⟩⟩
  publisher _ := Flow.keeps_anything _

theorem tried?_busy (h : w.tried? now world = some a) : w.phase.isBusy = true := by
  unfold tried? at h
  split at h
  · next hphase => rw [hphase]; rfl
  · next hphase => rw [hphase]; rfl
  · cases h

/-- A step that ends an attempt goes on as that has come out. -/
theorem Turn.of_tried (h : w.Turn now world w' world' (some a)) :
    (∃ b k tx u v, w.Reaches now world b k tx u v ∧ a = w.closes b k tx u v) ∧
      w'.phase = (w.resolve now a).1 ∧ world' = (w.resolve now a).2 := by
  cases h with
  | ended h => exact ⟨⟨_, _, _, _, _, h, rfl⟩, rfl, rfl⟩

theorem finished_ready {x : Op κ String Unit} (h : (finished (x.exec world).1 : Phase κ) = .ready) :
    x world = .ok () (endState x world) := by
  unfold endState
  cases hx : x world with
  | ok _ world' => rfl
  | error reason world' =>
    rw [Op.exec_error.mpr hx] at h
    cases h

end Worker

namespace Attempt

variable {s : Service κ} {endpoint target : Endpoint} {batch : List RawMessage} {k n : Nat}
  {w : World κ}

/-- A batch that is skipped after `k` failures and one more. -/
theorem skip_concludes :
    let r := (skip s endpoint (seen k batch)).exec w
    (∀ name, Unsent name w r.2) ∧ Concluded endpoint batch w (Worker.finished r.1) r.2 := by
  intro r
  have hr : r.2 = endState (skip s endpoint (seen k batch)) w := Op.exec_world _ _
  refine ⟨fun name => ?_, fun hready => ?_, fun ho => ?_⟩
  · rw [hr]
    exact skip_unsent s endpoint _ w
  · rw [hr]
    exact .of_settles (skip_ok s (Worker.finished_ready hready))
  · obtain ⟨u, hu, -⟩ := skip_obliging (seen_obliging k ho) s
    rw [show r = _ from Op.exec_ok.mpr hu]
    rfl

/-- A batch that is moved after `k` failures and one more. -/
theorem move_forwards (hn : n < UInt32.size)
    (hp : Produces s endpoint target (UInt32.ofNat n) (seen k batch) w) :
    let r := (move s endpoint target (UInt32.ofNat n) (seen k batch)).exec w
    Forwarded endpoint target n batch w r.2 ∧
      Concluded endpoint batch w (Worker.finished r.1) r.2 := by
  intro r
  have hr : r.2 = endState (move s endpoint target (UInt32.ofNat n) (seen k batch)) w :=
    Op.exec_world _ _
  refine ⟨⟨?_, fun m hm => Ledger.settled_goesOn hm, fun name hname => ?_⟩,
    fun hready => ?_, fun ho => ?_⟩
  · obtain ⟨moved, hmoved, hmap⟩ := move_gains s hp
    refine ⟨moved, by rw [hr]; exact hmoved, ?_⟩
    rw [hmap, Ledger.settled_seen]
    unfold Settlement.movedHeaders
    rw [UInt32.toNat_ofNat_of_lt' hn]
  · rw [hr]
    exact move_elsewhere s hname
  · rw [hr]
    exact .of_settles (move_ok s hp (Worker.finished_ready hready))
  · obtain ⟨u, hu, -⟩ := move_obliging (seen_obliging k ho) s hp
    rw [show r = _ from Op.exec_ok.mpr hu]
    rfl

/-- A batch that could not be moved. -/
theorem move_withdraws {failed : UInt32} {ms : List RawMessage}
    (hp : ¬ Produces s endpoint target failed ms w) :
    let r := (move s endpoint target failed ms).exec w
    Withdrawn endpoint.name w (Worker.finished r.1) r.2 := by
  intro r
  have haside : Aside endpoint.name w (endState (move s endpoint target failed ms) w) :=
    move_refused s hp
  obtain ⟨reason, u, hu, hsilent⟩ := move_unproduced s hp
  rw [endState_of_error hu] at haside
  rw [show r = _ from Op.exec_error.mpr hu]
  exact ⟨haside.log, haside.chunks, hsilent, reason, rfl⟩

end Attempt

namespace Trail

variable {w : Worker κ} {batch : List RawMessage} {world : World κ} {t : Trail κ} {now : Nat}
  {a : Tried κ} {e : InboundError}

/-- What follows the last attempt at a batch for which the policy has decided to give way. -/
theorem gives_way (hp : ∃ custom, w.service.pipeline = .create w.service.wire custom)
    (ht : Steps Anything (start w batch world) t) (ha : t.worker.tried? now t.world = some a)
    (he : a.outcome.error? = some e) :
    t.tried.length + 1 < UInt32.size ∧ a.batch = Attempt.seen t.tried.length batch ∧
      a.failed + 1 = UInt32.ofNat (t.tried.length + 1) ∧
      (t.work now).worker.phase = (w.giveWay now a.batch a.failed e a.world).1 ∧
      (t.work now).world = (w.giveWay now a.batch a.failed e a.world).2 := by
  have hw := Worker.along_anything hp
  obtain ⟨hsame, hstanding⟩ := standing hw batch world ht
  have hbusy := Worker.tried?_busy ha
  obtain ⟨hphase, htried, -⟩ := hstanding.of_busy hbusy
  have hturn := Worker.turn now t.world hbusy
  rw [ha] at hturn
  obtain ⟨⟨b, k, tx, u, v, hreaches, rfl⟩, hphase', hworld'⟩ := hturn.of_tried
  obtain ⟨⟨rfl, hk⟩, -⟩ := hreaches.along (hw.of_service hsame.service) hphase
  obtain ⟨hb, hf⟩ := t.worker.closes_batch (Attempt.seen t.tried.length batch) k tx u v
  rw [Worker.resolve_congr hsame.endpoint hsame.settings hsame.service,
    Worker.resolve_error he] at hphase' hworld'
  exact ⟨htried.room, hb, by rw [hf]; exact Worker.next_failed hk, hphase', hworld'⟩

/-- **The effect of giving a batch up**, over whatever stores the attempts have left. Failure number
`n` is the last one, and the policy has the batch moved or skipped. If every message is produced that
it is settled into, the target gets these, and the batch is given up; if one is not, the stores stay
as they are and the consumer stops. A batch that is skipped is given up without being produced. -/
theorem given_up (hp : ∃ custom, w.service.pipeline = .create w.service.wire custom)
    (ht : Steps Anything (start w batch world) t) (ha : t.worker.tried? now t.world = some a)
    (he : a.outcome.error? = some e) (hf : e.isFatal = false) :
    let n := t.tried.length + 1
    let t' := t.work now
    (∀ target, Policy.decideWith w.settings.policy (UInt32.ofNat n) = .ok (.move target) →
      (Attempt.Produces w.service w.endpoint target (UInt32.ofNat n) a.batch a.world →
        Forwarded w.endpoint target n batch a.world t'.world ∧
          Concluded w.endpoint batch a.world t'.worker.phase t'.world) ∧
      (¬ Attempt.Produces w.service w.endpoint target (UInt32.ofNat n) a.batch a.world →
        Withdrawn w.endpoint.name a.world t'.worker.phase t'.world)) ∧
    (Policy.decideWith w.settings.policy (UInt32.ofNat n) = .ok .skip →
      (∀ name, Unsent name a.world t'.world) ∧
        Concluded w.endpoint batch a.world t'.worker.phase t'.world) := by
  intro n t'
  obtain ⟨hroom, hb, hk, hphase, hworld⟩ := gives_way hp ht ha he
  rw [show t'.worker.phase = _ from hphase, show t'.world = _ from hworld]
  refine ⟨fun target hd => ?_, fun hd => ?_⟩
  · rw [Worker.giveWay_decided hf hk hd, hb]
    exact ⟨Attempt.move_forwards hroom, Attempt.move_withdraws⟩
  · rw [Worker.giveWay_decided hf hk hd, hb]
    exact Attempt.skip_concludes

/-! ### A batch of all kinds of messages -/

open Course (emptyWorld)
open Settlement (letter)

/-- A plain message twice, a chunk that completes a set of which one is parked, a chunk of another
set, a chunk beyond its set, a message that is logged, and one without an id. -/
def mixed : List RawMessage :=
  [letter "a" none 1 "0", letter "a" none 1 "1", letter "s" (some ("1", "2")) 3 "2",
    letter "t" (some ("0", "2")) 4 "3", letter "m" (some ("9", "2")) 5 "4", letter "z" none 6 "5",
    ⟨[7], .empty, some "6"⟩]

/-- A consumer that moves a batch when it has failed twice. -/
def dumping : Worker Unit where
  endpoint := ⟨"orders", none, []⟩
  settings := { policy := some (.move ⟨"dump", none, []⟩ 2) }
  service :=
    { broker := 0, wire := ⟨.empty, none⟩, pipeline := ⟨Pipeline.builtIn ⟨.empty, none⟩⟩
      publisher := ⟨[], [], .standard, [], 0, 0⟩, connectRetries := 0 }
  stream := ⟨"orders", [], 0, 0, false⟩

/-- One message is logged, and one chunk each of two sets is parked. -/
def halfway : World Unit :=
  { emptyWorld with
    log := .memory [⟨"z", "orders"⟩]
    chunks := .memory [⟨"s", 0, 2, [2]⟩, ⟨"u", 0, 2, [8]⟩] }

/-- The consumer after it has failed once. -/
def failedOnce : Trail Unit := (start dumping mixed halfway).work 0

/-- The second failure has the batch moved as four messages, one of them joined. One chunk set is
gone, and of the two others the chunks are there. -/
theorem given_up_mixed :
    Steps Anything (start dumping mixed halfway) failedOnce ∧
      (failedOnce.work 0).worker.phase = .ready ∧
      (failedOnce.work 0).world.ledger =
        ⟨[⟨"z", "orders"⟩, ⟨"a", "orders"⟩, ⟨"s", "orders"⟩, ⟨"m", "orders"⟩],
          [⟨"u", 0, 2, [8]⟩, ⟨"t", 0, 2, [4]⟩]⟩ ∧
      (∀ o, o ∈ ((failedOnce.work 0).world.transport.topic "orders").acknowledged ↔
        o ∈ ["0", "1", "2", "3", "4", "5", "6"]) ∧
      ((failedOnce.work 0).world.transport.produced "dump").map RawMessage.parcel =
        [([1], ⟨[(Headers.messageId, "a"), (Headers.failedAttempts, "2"),
            (Headers.sourceEndpoint, "orders")]⟩),
          ([2, 3], ⟨[(Headers.messageId, "s"), (Headers.failedAttempts, "2"),
            (Headers.sourceEndpoint, "orders")]⟩),
          ([5], ⟨[(Headers.messageId, "m"), (Headers.chunkIndex, "9"), (Headers.chunksCount, "2"),
            (Headers.failedAttempts, "2"), (Headers.sourceEndpoint, "orders")]⟩),
          ([7], ⟨[(Headers.failedAttempts, "2"), (Headers.sourceEndpoint, "orders")]⟩)] := by
  have hsteps : Steps Anything (start dumping mixed halfway) failedOnce := .single (.work 0 rfl)
  -- the second attempt fails as the first one has, and leaves the world as it was
  obtain ⟨a, ha⟩ : ∃ a, failedOnce.worker.tried? 0 failedOnce.world = some a :=
    Option.isSome_iff_exists.mp (by decide +kernel)
  have hfacts : (failedOnce.worker.tried? 0 failedOnce.world).map (fun a =>
      (a.outcome.error?.map InboundError.isFatal, a.world.ledger,
        (a.world.transport.produced "dump").length,
        (a.world.transport.topic "orders").acknowledged.length)) =
      some (some false, halfway.ledger, 0, 0) := by decide +kernel
  rw [ha] at hfacts
  simp only [Option.map_some, Option.some.injEq, Prod.mk.injEq,
    List.length_eq_zero_iff] at hfacts
  obtain ⟨herror, hledger, hempty, hsilent⟩ := hfacts
  obtain ⟨e, he, hf⟩ := Option.map_eq_some_iff.mp herror
  have hn : failedOnce.tried.length = 1 := by decide +kernel
  have h := given_up ⟨[], congrArg Pipeline.mk (Pipeline.create_stages _).symm⟩ hsteps ha he hf
  dsimp only at h
  rw [hn] at h
  obtain ⟨hproduced, hrefused⟩ := h.1 ⟨"dump", none, []⟩ rfl
  have hready : (failedOnce.work 0).worker.phase = .ready :=
    Phase.isReady_iff.mp (by decide +kernel)
  by_cases hp : Attempt.Produces dumping.service dumping.endpoint ⟨"dump", none, []⟩
      (UInt32.ofNat (1 + 1)) a.batch a.world
  · obtain ⟨hforwarded, hconcluded⟩ := hproduced hp
    have hgiven := hconcluded.givenUp hready
    obtain ⟨moved, hmoved, hmap⟩ := hforwarded.moved
    have hset : join [⟨"s", 0, 2, [2]⟩, ⟨"s", 1, 2, [3]⟩] = [2, 3] := by
      unfold join
      rw [List.mergeSort_of_pairwise (by decide)]
      rfl
    refine ⟨hsteps, hready, ?_, fun o => ?_, ?_⟩
    · rw [hgiven.ledger, hledger]
      decide +kernel
    · have hacked : o ∈ ((failedOnce.work 0).world.transport.topic "orders").acknowledged ↔
          o ∈ (a.world.transport.topic "orders").acknowledged ∨ o ∈ Attempt.offsets mixed :=
        hgiven.acked.acknowledged o
      rw [hsilent] at hacked
      exact hacked.trans ⟨fun h => h.resolve_left List.not_mem_nil, Or.inr⟩
    · rw [hmoved, hempty, List.nil_append, hmap, hledger, ← hset]
      rfl
  · obtain ⟨reason, hphase⟩ := (hrefused hp).stopped
    cases hready.symm.trans hphase

end Trail

end Relay
