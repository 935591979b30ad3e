import Relay.Proofs.Consumer.GivenUp
import Relay.Proofs.Denial
import Relay.Proofs.Participants
/-!
# A store that is missing

A store that does not find its resource is set up wrongly, and no retry mends that. Wherever a worker
meets the error (`Worker.Meets`), in a look-up of the pipeline, in a look-up of settling or in one of
its three commits, it stops with it, whatever the policy says.

What it leaves is told by `Trail.Withholds`: it acknowledges nothing on its topic, and writes nothing to
the stores, except that a commit that has broken off keeps what went before the participant that
failed (`Transaction.BreaksOff`).

**Reserve (`Worker.Reserved`, a hypothesis about the application).** Stages of its own, with what they
enlist, and its publishes leave the stores alone and acknowledge nothing on the topic.

Results:
- `Transaction.commit_broken`: the stores after a commit that has failed.
- `Trail.withheld`: what a worker leaves as long as it is busy with its batch.
- `Worker.Meets.halts`: the step in which it meets the error.
- `Trail.missing_stops`: all of this for every batch, up to there and from there on.
-/
namespace Relay

open World (Alike Sends Silent Stores Unsent)

variable {κ : Type} {name : String}

/-! ## Worlds with the stores as they were -/

namespace World

/-- The stores are the same, and no message of the topic was acknowledged. -/
structure Intact (name : String) (w w' : World κ) : Prop where
  log : w'.log = w.log
  chunks : w'.chunks = w.chunks
  silent : Silent name w w'

instance : Std.Refl (Intact (κ := κ) name) := ⟨fun w => ⟨rfl, rfl, Std.Refl.refl w⟩⟩

instance : IsTrans (World κ) (Intact name) :=
  ⟨fun _ _ _ h h' => ⟨h'.log.trans h.log, h'.chunks.trans h.chunks,
    IsTrans.trans _ _ _ h.silent h'.silent⟩⟩

variable {w w' : World κ}

theorem Alike.intact (h : Alike w w') (hs : Stores w w') : Intact name w w' :=
  ⟨h.log, h.chunks, hs.silent⟩

theorem Sends.intact (h : Sends w w') : Intact name w w' := ⟨h.log, h.chunks, h.silent⟩

end World

open World (Intact)

/-- While there is an outbox, it stays, and the stores and the topic are left alone. -/
def Scope.Intact (name : String) (s s' : Scope κ) : Prop :=
  s.outbox.isSome → s'.outbox.isSome ∧ World.Intact name s.world s'.world

instance : Std.Refl (Scope.Intact (κ := κ) name) := ⟨fun s ho => ⟨ho, Std.Refl.refl s.world⟩⟩

instance : IsTrans (Scope κ) (Scope.Intact name) := by
  refine ⟨fun s t u h h' ho => ?_⟩
  obtain ⟨ht, hst⟩ := h ho
  obtain ⟨hu, htu⟩ := h' ht
  exact ⟨hu, IsTrans.trans _ _ _ hst htu⟩

/-- The look-ups of the built-in stages leave the stores and every topic alone. -/
theorem Inbox.Allows.intact : Inbox.Allows (Inbox.Along (World.Intact (κ := κ) name)) where
  contains id endpoint := within_bind within_get fun s => Inbound.onWorld_along fun w =>
    (s.transaction.log.contains_alike id endpoint w).intact
      (s.transaction.log.contains_stores id endpoint w)
  aggregate raw := within_bind within_get fun s =>
    within_bind (Inbound.onWorld_along fun w =>
      (s.transaction.chunks.aggregate_alike raw.messageId raw.headers raw.payload w).intact
        (s.transaction.chunks.aggregate_stores raw.messageId raw.headers raw.payload w))
      fun _ => within_bind (within_modify fun t => ⟨Std.Refl.refl t.world, id⟩) fun _ => within_pure _
  add _ _ := within_modify fun t => ⟨Std.Refl.refl t.world, fun h => h⟩

/-- What the application has of its own leaves the stores alone and acknowledges nothing on the
topic: its stages with what they enlist, and what its publishes do. -/
structure Worker.Reserved (w : Worker κ) : Prop where
  pipeline : ∃ custom, w.service.pipeline = .create w.service.wire custom ∧
    ∀ st ∈ custom, st.Keeps (Intact w.endpoint.name)
  publisher : ∀ ms, (w.service.publisher.publish ms).Keeps (Scope.Intact w.endpoint.name)

/-! ## Commits that break off -/

/-- Participants with nothing to undo do not matter to a rollback. -/
theorem Within.idle {R : World κ → World κ → Prop} {r : Resource κ} {rs : List (Resource κ)}
    (h : Within R (Resource.rollbackAll rs)) (hr : r.rollback = pure ()) :
    Within R (Resource.rollbackAll (r :: rs)) := by
  intro w
  rw [← Op.exec_world, Resource.rollbackAll_idle hr, Op.exec_world]
  exact h w

namespace Transaction

/-- The stores when a participant of the commit has failed with the error, what was enlisted aside.
Those before it have committed what waited in their sessions. -/
inductive BreaksOff (tx : Transaction κ) (wire : Wire) (e : StoreError) (w : World κ) :
    InboundLog → ChunkStore → Prop
  /-- The outbox goes first, -/
  | outbox {u} (h : flush wire tx.outbox w = .error e u) : BreaksOff tx wire e w w.log w.chunks
  /-- then the log, -/
  | log {u v} (hu : flush wire tx.outbox w = .ok () u) (h : tx.log.commit u = .error e v) :
    BreaksOff tx wire e w w.log w.chunks
  /-- then the chunk store, from which some chunks may be gone when it fails, -/
  | chunks {u s v x log chunks} (hu : flush wire tx.outbox w = .ok () u)
    (hv : tx.log.commit u = .ok s v) (h : tx.chunks.commit v = .error e x)
    (hlog : w.log.append tx.log.pending = .ok log)
    (hchunks : ∀ c ∈ chunks.items, c ∈ w.chunks.items) : BreaksOff tx wire e w log chunks
  /-- and then what was enlisted. -/
  | enlisted {u s v s' x y log chunks} (hu : flush wire tx.outbox w = .ok () u)
    (hv : tx.log.commit u = .ok s v) (hx : tx.chunks.commit v = .ok s' x)
    (h : Resource.commitAll tx.resources x = .error e y)
    (hlog : w.log.append tx.log.pending = .ok log)
    (hchunks : tx.chunks.applied w.chunks = .ok chunks) : BreaksOff tx wire e w log chunks

/-- The second world is what a commit that has broken off leaves of the first one. -/
structure Broken (tx : Transaction κ) (wire : Wire) (name : String) (w w' : World κ) : Prop where
  stores : ∃ e, tx.BreaksOff wire e w w'.log w'.chunks
  silent : Silent name w w'

variable {tx : Transaction κ} {wire : Wire} {w w' : World κ} {e : StoreError}

theorem commit_breaksOff (htx : tx.Along (Intact name)) (h : tx.commit wire w = .error e w') :
    tx.BreaksOff wire e w w'.log w'.chunks := by
  have hresources : Within (Intact name) (Resource.rollbackAll tx.resources) :=
    Resource.rollbackAll_within fun r hr => (htx r hr).2
  unfold commit participants at h
  rw [List.cons_append, List.cons_append, List.cons_append, List.nil_append] at h
  rcases Resource.commitAll_error h with ⟨u, hu, hend⟩ | ⟨u, hu, h1⟩
  · have hroll : Intact name u w' := hend ▸ ((hresources.idle rfl).idle rfl).idle rfl u
    have hsent := (flush_sends wire tx.outbox).error hu
    rw [hroll.log, hroll.chunks, hsent.log, hsent.chunks]
    exact .outbox hu
  have hsent := (flush_sends wire tx.outbox).ok hu
  rcases Resource.commitAll_error h1 with ⟨v, hv, hend⟩ | ⟨v, hv, h2⟩
  · have hroll : Intact name v w' := hend ▸ (hresources.idle rfl).idle rfl v
    have hv := discard_error.mp hv
    have hkept := LogSession.commit_error hv
    rw [hroll.log, hroll.chunks, hkept.log, hkept.chunks, hsent.log, hsent.chunks]
    exact .log hu hv
  obtain ⟨s, hv⟩ := discard_ok.mp hv
  obtain ⟨log, hlog, huv⟩ := LogSession.commit_ok hv
  have hvlog : v.log = log := huv.log
  have hvchunks : v.chunks = w.chunks := huv.chunks.trans hsent.chunks
  rw [hsent.log] at hlog
  rcases Resource.commitAll_error h2 with ⟨x, hx, hend⟩ | ⟨x, hx, h3⟩
  · have hroll : Intact name x w' := hend ▸ hresources.idle rfl x
    have hx := discard_error.mp hx
    rw [hroll.log, hroll.chunks]
    rcases ChunkSession.commit_error hx with hkept | ⟨chunks, hc, hkept⟩
    · rw [hkept.log, hkept.chunks, hvlog, hvchunks]
      exact .chunks hu hv hx hlog fun _ hc => hc
    · rw [hvchunks] at hc
      rw [show x.log = log from hkept.log.trans hvlog, show x.chunks = chunks from hkept.chunks]
      refine .chunks hu hv hx hlog fun c hm => ?_
      rw [ChunkStore.cleanup_items hc] at hm
      exact List.mem_of_mem_filter hm
  · have hrest := (Resource.commitAll_within htx).error h3
    obtain ⟨s', hx⟩ := discard_ok.mp hx
    obtain ⟨chunks, hchunks, hvx⟩ := ChunkSession.commit_ok hx
    rw [hvchunks] at hchunks
    rw [hrest.log, hrest.chunks, show x.log = log from hvx.log.trans hvlog,
      show x.chunks = chunks from hvx.chunks]
    exact .enlisted hu hv hx h3 hlog hchunks

/-- **What a commit leaves that has failed.** -/
theorem commit_broken (htx : tx.Along (Intact name)) (h : tx.commit wire w = .error e w') :
    tx.Broken wire name w w' := by
  have hsilent : tx.Along (Silent name) := fun r hr =>
    ⟨(htx r hr).1.mono fun _ _ h => h.silent, (htx r hr).2.mono fun _ _ h => h.silent⟩
  exact ⟨⟨e, commit_breaksOff htx h⟩, (tx.commit_silent wire hsilent).error h⟩

end Transaction

/-! ## Batches that cannot be given up -/

namespace Attempt

variable {endpoint target : Endpoint} {ms settled : List RawMessage} {failed : UInt32}
  {tx : Transaction κ} {e : StoreError} {w u v : World κ}

/-- A look-up refused while a batch is settled is what skipping it fails with. -/
theorem skip_denied (s : Service κ) (h : Settlement.Denied e endpoint ms ⟨{}, w⟩) :
    ∃ u, skip s endpoint ms w = .error e.message u ∧ Intact endpoint.name w u := by
  obtain ⟨x, u, hu, hx⟩ := Settlement.batch_denied s.wire h
  exact ⟨u, bind_of_error (Op.mapError_error.mpr ⟨x, hu, hx.message⟩),
    (Settlement.batch_along .intact s.wire endpoint ms).error hu⟩

/-- So is the failure of its commit. -/
theorem skip_refused (s : Service κ)
    (hu : Settlement.batch s.wire endpoint ms w = .ok (settled, tx) u)
    (h : tx.commit s.wire u = .error e v) : skip s endpoint ms w = .error e.message v := by
  unfold skip
  rw [bind_of_ok (Op.mapError_ok.mpr hu)]
  exact bind_of_error (Op.mapError_error.mpr ⟨e, h, rfl⟩)

/-- A look-up refused while a batch is settled is what moving it fails with, before anything is
produced. -/
theorem move_denied (s : Service κ) (target : Endpoint) (failed : UInt32)
    (h : Settlement.Denied e endpoint ms ⟨{}, w⟩) :
    ∃ u, move s endpoint target failed ms w = .error e.message u ∧ Intact endpoint.name w u ∧
      ∀ topic, Unsent topic w u := by
  obtain ⟨x, u, hu, hx⟩ := Settlement.batch_denied s.wire h
  have hstores : Stores w u := (Settlement.batch_stores s.wire endpoint ms).error hu
  exact ⟨u, bind_of_error (Op.mapError_error.mpr ⟨x, hu, hx.message⟩),
    (Settlement.batch_along .intact s.wire endpoint ms).error hu, fun _ => hstores.unsent⟩

/-- So is the failure of the commit that follows the productions. -/
theorem move_uncommitted (s : Service κ)
    (hu : Settlement.batch s.wire endpoint ms w = .ok (settled, tx) u) {y : World κ}
    (hy : Settlement.move endpoint target failed settled
      (endState (World.useProducer (ε := TransportError) s.broker target) u) = .ok () y)
    (h : tx.commit s.wire y = .error e v) :
    move s endpoint target failed ms w = .error e.message v := by
  rw [move_eq s hu, bind_of_ok (Op.attempt_eq _ _), Op.exec_ok.mpr hy]
  exact bind_of_error (Op.mapError_error.mpr ⟨e, h, rfl⟩)

end Attempt

/-! ## The places -/

namespace Worker

/-- The policy decides on the action after the attempt. -/
def Decides (w : Worker κ) (a : Tried κ) (action : Action) : Prop :=
  ∃ x, a.outcome.error? = some x ∧ x.isFatal = false ∧
    Policy.decideWith w.settings.policy (a.failed + 1) = .ok action

/-- In its next step the worker commits the transaction in the world: that of an attempt, or that of a
batch it skips or moves; in the last case it has produced the messages to the target. -/
inductive Commits (w : Worker κ) (now : Nat) (world : World κ) :
    Transaction κ → World κ → Option Endpoint → Prop
  | tried {batch failed tx u} (h : w.Reaches now world batch failed tx u none) :
    Commits w now world tx u none
  | skipped {a settled tx u} (ha : w.tried? now world = some a) (hd : w.Decides a .skip)
    (hu : Settlement.batch w.service.wire w.endpoint a.batch a.world = .ok (settled, tx) u) :
    Commits w now world tx u none
  | moved {a target settled tx u v} (ha : w.tried? now world = some a)
    (hd : w.Decides a (.move target))
    (hu : Settlement.batch w.service.wire w.endpoint a.batch a.world = .ok (settled, tx) u)
    (hv : Settlement.move w.endpoint target (a.failed + 1) settled
      (endState (World.useProducer (ε := TransportError) w.service.broker target) u) = .ok () v) :
    Commits w now world tx v (some target)

/-- In its next step the worker gets the error for a call that it makes for its batch: from a look-up
of the pipeline, from one of settling, or from a commit. -/
inductive Meets (w : Worker κ) (now : Nat) (world : World κ) (e : StoreError) :
    Option Endpoint → Prop
  | reading {batch failed} (hphase : w.phase = .attempting batch failed)
    (h : Attempt.Denied e w.service.pipeline w.endpoint batch ⟨{}, world⟩) :
    Meets w now world e none
  | settling {a action} (ha : w.tried? now world = some a) (hd : w.Decides a action)
    (hgives : action = .skip ∨ ∃ target, action = .move target)
    (h : Settlement.Denied e w.endpoint a.batch ⟨{}, a.world⟩) : Meets w now world e none
  | committing {tx u v moved} (hc : w.Commits now world tx u moved)
    (h : tx.commit w.service.wire u = .error e v) : Meets w now world e moved

variable {w : Worker κ} {now : Nat} {world u : World κ} {batch : List RawMessage} {failed : UInt32}
  {tx : Transaction κ} {a : Tried κ} {v : Option InboundError} {e : StoreError}
  {moved : Option Endpoint}

theorem Reaches.tried? (h : w.Reaches now world batch failed tx u v) :
    w.tried? now world = some (w.closes batch failed tx u v) := by
  cases h with
  | refused hphase hp | nothing hphase hp =>
    unfold Worker.tried?
    rw [hphase]
    dsimp only
    rw [hp]
  | published hphase hpoll =>
    unfold Worker.tried?
    rw [hphase]
    dsimp only
    rw [hpoll]

theorem Decides.uncommitted {action : Action} (h : w.Decides a action) :
    a.outcome ≠ .committed := by
  obtain ⟨x, hx, -⟩ := h
  intro hc
  rw [hc] at hx
  cases hx

/-- What skipping a batch fails with is what the worker stops with. -/
theorem Decides.skip_error (h : w.Decides a .skip) {reason : String}
    (hs : Attempt.skip w.service w.endpoint a.batch a.world = .error reason u) :
    w.resolve now a = (.failed reason, u) := by
  obtain ⟨x, hx, hfatal, hd⟩ := h
  rw [resolve_error hx]
  unfold giveWay
  rw [if_neg (by simp [hfatal])]
  dsimp only
  rw [hd]
  dsimp only
  rw [Op.exec_error.mpr hs]
  rfl

theorem Decides.move_error {target : Endpoint} (h : w.Decides a (.move target)) {reason : String}
    (hs : Attempt.move w.service w.endpoint target (a.failed + 1) a.batch a.world =
      .error reason u) : w.resolve now a = (.failed reason, u) := by
  obtain ⟨x, hx, hfatal, hd⟩ := h
  rw [resolve_error hx]
  unfold giveWay
  rw [if_neg (by simp [hfatal])]
  dsimp only
  rw [hd]
  dsimp only
  rw [Op.exec_error.mpr hs]
  rfl

theorem resolve_fatal {x : InboundError} (hx : a.outcome.error? = some x)
    (hfatal : x.isFatal = true) : w.resolve now a = (.failed x.message, a.world) :=
  (resolve_error hx).trans (giveWay_fatal hfatal)

/-- The attempt that the step brings to its end is the last one: the worker stops with the error, and
on the way there nothing is written or acknowledged, except by a commit that breaks off, and nothing
is produced but to the target. -/
structure Halts (w : Worker κ) (now : Nat) (world : World κ) (e : StoreError)
    (moved : Option Endpoint) (a : Tried κ) : Prop where
  tried : w.tried? now world = some a
  uncommitted : a.outcome ≠ .committed
  phase : (w.resolve now a).1 = .failed e.message
  leaves : Intact w.endpoint.name a.world (w.resolve now a).2 ∨
    ∃ tx u, w.Commits now world tx u moved ∧ Intact w.endpoint.name a.world u ∧
      tx.Broken w.service.wire w.endpoint.name u (w.resolve now a).2
  unsent : ∀ topic, (∀ target, moved = some target → target.name ≠ topic) →
    Unsent topic a.world (w.resolve now a).2

/-- An attempt that ends with a fatal failure. -/
theorem Halts.of_fatal {x : InboundError} (ha : w.tried? now world = some a)
    (hx : a.outcome.error? = some x) (hfatal : x.isFatal = true) (hm : x.message = e.message) :
    w.Halts now world e moved a := by
  have hr : w.resolve now a = _ := resolve_fatal hx hfatal
  refine ⟨ha, fun hc => ?_, ?_, ?_, ?_⟩
  · rw [hc] at hx
    cases hx
  · rw [hr, hm]
  · rw [hr]
    exact .inl (Std.Refl.refl _)
  · rw [hr]
    exact fun _ _ => Std.Refl.refl _

/-- The settlement of a batch that is given up, as its commit begins. -/
theorem settled_intact {settled : List RawMessage}
    (hu : Settlement.batch w.service.wire w.endpoint batch world = .ok (settled, tx) u) :
    Intact w.endpoint.name world u ∧ tx.Along (Intact w.endpoint.name) :=
  ⟨(Settlement.batch_along .intact w.service.wire w.endpoint batch).ok hu, fun r hr => by
    rw [(Settlement.batch_empty hu).2] at hr
    cases hr⟩

/-- A commit that fails with a fatal error. -/
theorem Commits.halts {x y : World κ} (hc : w.Commits now world tx y moved)
    (hfatal : e.isFatal = true) (h : tx.commit w.service.wire y = .error e x) :
    ∃ a, w.Halts now world e moved a := by
  cases hc with
  | tried hreaches =>
    refine ⟨_, .of_fatal hreaches.tried? ?_ (x := .store e) hfatal rfl⟩
    rw [closes_undone h]
    rfl
  | @skipped a settled _ _ ha hd hu =>
    have hskip := Attempt.skip_refused w.service hu h
    have hr : w.resolve now a = _ := hd.skip_error hskip
    obtain ⟨hw, htx⟩ := settled_intact hu
    refine ⟨a, ha, hd.uncommitted, by rw [hr], ?_, ?_⟩
    · rw [hr]
      exact .inr ⟨tx, y, .skipped ha hd hu, hw, Transaction.commit_broken htx h⟩
    · rw [hr]
      exact fun topic _ => (Attempt.skip_unsent w.service w.endpoint a.batch).error hskip
  | @moved a target settled _ u _ ha hd hu hv =>
    have hmove := Attempt.move_uncommitted w.service hu hv h
    have hr : w.resolve now a = _ := hd.move_error hmove
    obtain ⟨hw, htx⟩ := settled_intact hu
    have hsends : Sends u y := IsTrans.trans _ _ _
      (World.useProducer_sends (ε := TransportError) w.service.broker target u)
      ((Settlement.move_sends w.endpoint target (a.failed + 1) settled).ok hv)
    refine ⟨a, ha, hd.uncommitted, by rw [hr], ?_, ?_⟩
    · rw [hr]
      exact .inr ⟨tx, y, .moved ha hd hu hv, IsTrans.trans _ _ _ hw hsends.intact,
        Transaction.commit_broken htx h⟩
    · rw [hr]
      intro topic htopic
      have helse : Unsent topic a.world (endState (Attempt.move w.service w.endpoint target
          (a.failed + 1) a.batch) a.world) := Attempt.move_elsewhere w.service (htopic target rfl)
      rwa [endState_of_error hmove] at helse

/-- **A worker that meets a fatal error stops with it**, wherever it does. -/
theorem Meets.halts (h : w.Meets now world e moved) (hfatal : e.isFatal = true) :
    ∃ a, w.Halts now world e moved a := by
  cases h with
  | reading hphase h =>
    obtain ⟨x, s, hs, hx⟩ := Attempt.prepare_denied h
    have hreaches : w.Reaches now world _ _ s.transaction s.world (some x) := .refused hphase hs
    exact ⟨_, .of_fatal hreaches.tried? rfl (hx.isFatal.trans hfatal) hx.message⟩
  | @settling a action ha hd hgives h =>
    refine ⟨a, ?_⟩
    rcases hgives with rfl | ⟨target, rfl⟩
    · obtain ⟨u, hu, hw⟩ := Attempt.skip_denied w.service h
      have hr : w.resolve now a = _ := hd.skip_error hu
      refine ⟨ha, hd.uncommitted, by rw [hr], by rw [hr]; exact .inl hw, ?_⟩
      rw [hr]
      exact fun topic _ => (Attempt.skip_unsent w.service w.endpoint a.batch).error hu
    · obtain ⟨u, hu, hw, hunsent⟩ := Attempt.move_denied w.service target (a.failed + 1) h
      have hr : w.resolve now a = _ := hd.move_error hu
      refine ⟨ha, hd.uncommitted, by rw [hr], by rw [hr]; exact .inl hw, ?_⟩
      rw [hr]
      exact fun topic _ => hunsent topic
  | committing hc h => exact hc.halts hfatal h

end Worker

/-! ## The whole batch -/

namespace Trail

variable {R : World κ → World κ → Prop} {t₀ t t' : Trail κ} {w : Worker κ} {world : World κ}
  {batch : List RawMessage}

/-- What others do, what leaves the stores alone and acknowledges nothing, and commits at the batch
that break off, in any order. -/
def Withholds (R : World κ → World κ → Prop) (t₀ : Trail κ) : World κ → World κ → Prop :=
  Relation.ReflTransGen fun u v => R u v ∨ Intact t₀.worker.endpoint.name u v ∨
    ∃ t now tx moved, Steps R t₀ t ∧ t.worker.Commits now t.world tx u moved ∧
      tx.Broken t₀.worker.service.wire t₀.worker.endpoint.name u v

namespace Withholds

variable {u v : World κ}

theorem of_intact (h : Intact t₀.worker.endpoint.name u v) : Withholds R t₀ u v :=
  .single (.inr (.inl h))

/-- Nothing is acknowledged on the topic, if others do not. -/
theorem silent (h : Withholds R t₀ u v)
    (hR : ∀ u v, R u v → Silent t₀.worker.endpoint.name u v) :
    Silent t₀.worker.endpoint.name u v := by
  induction h with
  | refl => exact Std.Refl.refl _
  | tail _ hs ih =>
    rcases hs with hr | hi | ⟨_, _, _, _, -, -, hb⟩
    · exact IsTrans.trans _ _ _ ih (hR _ _ hr)
    · exact IsTrans.trans _ _ _ ih hi.silent
    · exact IsTrans.trans _ _ _ ih hb.silent

end Withholds

theorem Step.mono {R' : World κ → World κ → Prop} (h : ∀ u v, R u v → R' u v) (hs : Step R t t') :
    Step R' t t' := by
  cases hs with
  | work now hb => exact .work now hb
  | others hr => exact .others (h _ _ hr)
  | cancel => exact .cancel t
  | abandon => exact .abandon t

/-- Once the worker has let go of its batch, only others go on. -/
theorem idle_stays (h : t.worker.phase.isBusy = false) (hs : Steps R t t') :
    t'.worker.phase = t.worker.phase ∧ t'.tried = t.tried ∧
      Relation.ReflTransGen R t.world t'.world := by
  induction hs with
  | refl => exact ⟨rfl, rfl, .refl⟩
  | tail _ hs ih =>
    obtain ⟨hphase, htried, hr⟩ := ih
    cases hs with
    | work now hb => rw [hphase, h] at hb; cases hb
    | others hr' => exact ⟨hphase, htried, hr.tail hr'⟩
    | cancel => exact ⟨hphase, htried, hr⟩
    | abandon => exact ⟨hphase, htried, hr⟩

section
variable {now : Nat}

/-- The end of an attempt that has not committed. -/
theorem closes_withheld {b : List RawMessage} {k : UInt32} {tx : Transaction κ} {u : World κ}
    {v : Option InboundError} (hsame : t.Same t₀.worker) (ht : Steps R t₀ t)
    (htx : tx.Along (Intact t₀.worker.endpoint.name)) (h : t.worker.Reaches now t.world b k tx u v)
    (hne : (t.worker.closes b k tx u v).outcome ≠ .committed) :
    Withholds R t₀ u (t.worker.closes b k tx u v).world := by
  cases v with
  | some e =>
    have hroll : Within (Intact t₀.worker.endpoint.name) (tx.rollback t.worker.service.wire) :=
      Transaction.rollback_along htx
    change Withholds R t₀ u ((tx.rollback t.worker.service.wire).exec u).2
    rw [Op.exec_world]
    exact .of_intact (hroll u)
  | none =>
    cases hx : tx.commit t.worker.service.wire u with
    | ok _ x => exact absurd (by rw [Worker.closes_committed hx]) hne
    | error e x =>
      rw [Worker.closes_undone hx]
      rw [hsame.service] at hx
      exact .single (.inr (.inr ⟨t, now, tx, none, ht, .tried h, Transaction.commit_broken htx hx⟩))

end

end Trail

namespace Worker

variable {w w' : Worker κ} {now : Nat} {a : Tried κ}

/-- A batch that is tried again is left as the attempt has left it. -/
theorem resolve_busy (h : (w.resolve now a).1.isBusy = true) :
    (w.resolve now a).2 = a.world ∧ a.outcome ≠ .committed ∧
      ∀ R S, (w.resolve now a).1.Along R S := by
  by_cases ha : a.Again w.settings.policy (a.failed.toNat + 1)
  · obtain ⟨hworld, hnext⟩ := resolve_again now rfl ha
    refine ⟨hworld, ha.uncommitted, fun R S => ?_⟩
    rcases hnext with hn | ⟨_, hn⟩ <;> rw [hn] <;> trivial
  · rw [(resolve_last rfl ha).idle] at h
    cases h

namespace Reserved

theorem of_same (h : w.Reserved) (he : w'.endpoint = w.endpoint) (hs : w'.service = w.service) :
    w'.Reserved :=
  ⟨by rw [he, hs]; exact h.pipeline, by rw [he, hs]; exact h.publisher⟩

theorem prepare (h : w.Reserved) (ms : List RawMessage) :
    Within (Inbox.Along (Intact w.endpoint.name))
      (Attempt.prepare w.service.pipeline w.endpoint ms) := by
  obtain ⟨custom, hp, hc⟩ := h.pipeline
  rw [hp]
  exact Attempt.prepare_within (Pipeline.create_preserves .intact _ hc) w.endpoint ms

end Reserved

end Worker

namespace Trail

variable {R : World κ → World κ → Prop} {t₀ t t' : Trail κ} {w : Worker κ} {world : World κ}
  {batch : List RawMessage} {now : Nat} {moved : Option Endpoint}

/-- Up to the end of an attempt. -/
theorem reaches_intact {b : List RawMessage} {k : UInt32} {tx : Transaction κ} {u : World κ}
    {v : Option InboundError} (hw : t.worker.Reserved)
    (hphase : t.worker.phase.Along (Intact t.worker.endpoint.name)
      (Scope.Intact t.worker.endpoint.name))
    (h : t.worker.Reaches now t.world b k tx u v) :
    tx.Along (Intact t.worker.endpoint.name) ∧ Intact t.worker.endpoint.name t.world u :=
  h.carried hw.prepare (fun _ _ hs ho => (hs ho).2) hphase

/-- A step of the worker after which it is still busy. -/
theorem turn_withheld (hsame : t.Same t₀.worker) (ht : Steps R t₀ t) (hw : t.worker.Reserved)
    (hphase : t.worker.phase.Along (Intact t₀.worker.endpoint.name)
      (Scope.Intact t₀.worker.endpoint.name))
    {w' : Worker κ} {world' : World κ} {a : Option (Tried κ)}
    (h : t.worker.Turn now t.world w' world' a) (hb : w'.phase.isBusy = true) :
    w'.phase.Along (Intact t₀.worker.endpoint.name) (Scope.Intact t₀.worker.endpoint.name) ∧
      Withholds R t₀ t.world world' := by
  rw [← hsame.endpoint] at hphase
  cases h with
  | ended hr =>
    obtain ⟨htx, hu⟩ := reaches_intact hw hphase hr
    obtain ⟨hworld, hne, halong⟩ := Worker.resolve_busy hb
    rw [hsame.endpoint] at htx hu
    refine ⟨halong _ _, ?_⟩
    rw [hworld]
    exact (Withholds.of_intact hu).trans (closes_withheld hsame ht htx hr hne)
  | launched hb hp =>
    have ha := (hw.prepare _).ok hp
    have htx := ha.resources Transaction.along_empty
    have hpublish := hw.publisher
    rw [hsame.endpoint] at ha htx hpublish
    exact ⟨⟨htx, hpublish _⟩, .of_intact ha.world⟩
  | @polled _ _ tx _ _ _ hb' hpoll =>
    rw [hsame.endpoint, hb'] at hphase
    obtain ⟨htx, hflow⟩ := hphase
    obtain ⟨hs, hk⟩ := hflow.poll now ⟨t.world, some tx.outbox⟩
    rw [hpoll] at hs hk
    exact ⟨⟨htx, hk⟩, .of_intact (hs rfl).2⟩
  | panicked => cases hb
  | stopped => cases hb
  | woken => exact ⟨trivial, .refl⟩
  | waiting =>
    rw [hsame.endpoint] at hphase
    exact ⟨hphase, .refl⟩

/-- **What a worker leaves while it is busy with its batch.** -/
theorem withheld (hw : w.Reserved) (ht : Steps R (start w batch world) t) :
    t.Same w ∧ (t.worker.phase.isBusy = true →
      t.worker.phase.Along (Intact w.endpoint.name) (Scope.Intact w.endpoint.name) ∧
        Withholds R (start w batch world) world t.world) := by
  induction ht with
  | refl => exact ⟨⟨rfl, rfl, rfl⟩, fun _ => ⟨trivial, .refl⟩⟩
  | @tail t t' ht hs ih =>
    obtain ⟨hsame, hbusy⟩ := ih
    obtain ⟨he, hset, hv⟩ := hs.fixed
    refine ⟨⟨he.trans hsame.endpoint, hset.trans hsame.settings, hv.trans hsame.service⟩, fun hb => ?_⟩
    cases hs with
    | work now hb' =>
      obtain ⟨hphase, hworld⟩ := hbusy hb'
      have hsame₀ : t.Same (start w batch world).worker :=
        ⟨hsame.endpoint, hsame.settings, hsame.service⟩
      obtain ⟨hphase', hworld'⟩ := turn_withheld hsame₀ ht
        (hw.of_same hsame.endpoint hsame.service) hphase (Worker.turn now t.world hb') hb
      exact ⟨hphase', hworld.trans hworld'⟩
    | others hr =>
      obtain ⟨hphase, hworld⟩ := hbusy hb
      exact ⟨hphase, hworld.tail (.inl hr)⟩
    | cancel => exact hbusy hb
    | abandon => exact hbusy hb

/-- Every attempt before the one in progress was followed by another one. -/
theorem retried_busy (hw : w.Reserved) (ht : Steps R (start w batch world) t)
    (hb : t.worker.phase.isBusy = true) : Retried w.settings.policy batch t.tried := by
  obtain ⟨custom, hp, -⟩ := hw.pipeline
  have hany : Steps Anything (start w batch world) t :=
    Relation.ReflTransGen.mono (fun _ _ hs => hs.mono fun _ _ _ => trivial) _ _ ht
  exact ((standing (Worker.along_anything ⟨custom, hp⟩) batch world hany).2.of_busy hb).2.1

/-- What the worker leaves with the step in which it stops. -/
theorem halts_withheld (hw : w.Reserved) (ht : Steps R (start w batch world) t) {e : StoreError}
    {a : Tried κ} (h : t.worker.Halts now t.world e moved a) :
    (t.work now).worker.phase = .failed e.message ∧
      (t.work now).world = (t.worker.resolve now a).2 ∧
      Withholds R (start w batch world) world (t.work now).world := by
  have hbusy := Worker.tried?_busy h.tried
  obtain ⟨hsame, hkept⟩ := withheld hw ht
  obtain ⟨hphase, hworld⟩ := hkept hbusy
  have hturn := Worker.turn now t.world hbusy
  rw [h.tried] at hturn
  -- the step brings an attempt to its end
  obtain ⟨⟨b, k, tx, u, v, hreaches, rfl⟩, hphase', hworld'⟩ := hturn.of_tried
  refine ⟨hphase'.trans h.phase, hworld', ?_⟩
  rw [← hsame.endpoint] at hphase
  obtain ⟨htx, hu⟩ := reaches_intact (hw.of_same hsame.endpoint hsame.service) hphase hreaches
  have hleft := h.leaves
  rw [hsame.endpoint] at htx hu hleft
  have hreached : Withholds R (start w batch world) t.world u := .of_intact hu
  have hclosed : Withholds R (start w batch world) u _ :=
    closes_withheld ⟨hsame.endpoint, hsame.settings, hsame.service⟩ ht htx hreaches h.uncommitted
  have hended := (hworld.trans hreached).trans hclosed
  rw [show (t.work now).world = _ from hworld']
  rcases hleft with hi | ⟨tx', x, hc, hi, hb⟩
  · exact hended.tail (.inr (.inl hi))
  · rw [hsame.service] at hb
    exact (hended.tail (.inr (.inl hi))).tail (.inr (.inr ⟨t, now, tx', moved, ht, hc, hb⟩))

/-- **A store that is missing stops the consumer**, whatever the policy says and wherever the worker
meets the error for a call it makes for its batch. It stops with the error, in that step and for
good; every attempt up to the last was followed by another one, and the last one by none. From the
moment it took the batch up it has acknowledged nothing, and the stores hold nothing new but what a
commit that broke off has kept. Nothing is produced after the last attempt, unless the call is the
commit of a batch whose messages have all been moved to the target. -/
theorem missing_stops (hw : w.Reserved) (ht : Steps R (start w batch world) t) {resource : String}
    (hm : t.worker.Meets now t.world (.resourceNotFound resource) moved)
    (hlater : Steps R (t.work now) t') :
    ∃ a, t'.worker.phase = .failed ("Storage resource not found: " ++ resource) ∧
      t'.tried = t.tried ++ [a] ∧ Retried w.settings.policy batch t.tried ∧
      Withholds R (start w batch world) world t'.world ∧
      ((∀ u v, R u v → Silent w.endpoint.name u v) → Silent w.endpoint.name world t'.world) ∧
      ∀ topic, (∀ target, moved = some target → target.name ≠ topic) →
        Unsent topic a.world (t.work now).world := by
  obtain ⟨a, h⟩ := hm.halts rfl
  obtain ⟨hstop, hworld, hleaves⟩ := halts_withheld hw ht h
  obtain ⟨hphase, htried, hothers⟩ := idle_stays (by rw [hstop]; rfl) hlater
  have hall : Withholds R (start w batch world) world t'.world :=
    hleaves.trans (Relation.ReflTransGen.mono (fun _ _ hr => .inl hr) _ _ hothers)
  refine ⟨a, hphase.trans hstop, ?_, retried_busy hw ht (Worker.tried?_busy h.tried), hall,
    hall.silent, fun topic htopic => ?_⟩
  · rw [htried]
    change t.tried ++ (t.worker.tried? now t.world).toList = _
    rw [h.tried]
    rfl
  · rw [hworld]
    exact h.unsent topic htopic

/-! ### A batch that is moved and cannot be logged -/

open Course (emptyWorld ping noted noted_pipeline noted_keeps)

/-- A consumer that moves a batch when it has failed once. Its handler fails. -/
def diverting : Worker Unit where
  endpoint := ⟨"orders", none, []⟩
  settings := { policy := some (.move ⟨"dump", none, []⟩ 1) }
  service := noted 1
  stream := ⟨"orders", [], 0, 0, false⟩

/-- No table is found to log messages in. -/
def unlogged : World Unit := { emptyWorld with rules := [⟨.logAppend, .notFound, none, none⟩] }

theorem diverting_reserved : diverting.Reserved where
  pipeline := ⟨[], noted_pipeline 1, fun _ h => absurd h List.not_mem_nil⟩
  publisher := noted_keeps (R := Scope.Intact "orders")
    (fun _ ho => ⟨ho, ⟨rfl, rfl, ⟨rfl, rfl⟩⟩⟩) 1

/-- The consumer when a message has gone to the handler. -/
def diverted : Trail Unit := (start diverting [ping "a" "0"] unlogged).work 0

/-- The handler fails, the message is produced to the other endpoint, and cannot be logged. -/
theorem missing_stops_moved :
    (diverted.work 0).worker.phase =
        .failed "Storage resource not found: table behind log.append" ∧
      (diverted.work 0).world.notes.length = 1 ∧ (diverted.work 0).tried.length = 1 ∧
      ((diverted.work 0).world.transport.produced "dump").map RawMessage.payload = [[0x7B, 0x7D]] ∧
      (diverted.work 0).world.log.items = [] ∧
      Silent "orders" unlogged (diverted.work 0).world := by
  have hsteps : Steps (Silent "orders") (start diverting [ping "a" "0"] unlogged) diverted :=
    .single (.work 0 rfl)
  have hmeets : diverted.worker.Meets 0 diverted.world
      (.resourceNotFound "table behind log.append") (some ⟨"dump", none, []⟩) :=
    .committing (.moved rfl ⟨_, rfl, rfl, rfl⟩ rfl rfl) rfl
  obtain ⟨a, hphase, htried, -, -, hsilent, -⟩ :=
    missing_stops diverting_reserved hsteps hmeets .refl
  exact ⟨hphase, rfl, congrArg List.length htried, rfl, rfl, hsilent fun _ _ h => h⟩

end Trail

end Relay
