import Mathlib.Order.Bounds.Defs
import Relay.Proofs.Consumer.Course
import Relay.Proofs.Consumer.Trail
import Relay.Proofs.Obliging
/-!
# The outcome of the batch loop

A worker that is not cancelled makes attempts at its batch up to the first that succeeds, that fails
fatally, or after whose failure the policy does not have the batch tried again; the counter of
failures does not wrap before that. Then the batch is acknowledged or not, depending on how it ended.

Results:
- `Attempt.skip_obliging`, `move_obliging`: a batch that is skipped or moved is acknowledged where the
  stores and the transport oblige; `move_unproduced`: one that could not be moved is not.
- `Trail.ends`: as long as publishes come to an end, so does the batch.
- `Trail.batch_ends`: all of this in every state that the worker reaches.
-/
namespace Relay

open World (Acked Obliging Sends Steadfast Stores)

variable {κ : Type}

/-! ## Worlds in which nothing is acknowledged -/

namespace World

/-- No message of the topic was acknowledged. -/
structure Silent (name : String) (w w' : World κ) : Prop where
  calls : w'.calls name = w.calls name
  acknowledged : (w'.transport.topic name).acknowledged = (w.transport.topic name).acknowledged

variable {name : String} {w w' u u' : World κ}

instance : Std.Refl (Silent (κ := κ) name) := ⟨fun _ => ⟨rfl, rfl⟩⟩

instance : IsTrans (World κ) (Silent name) :=
  ⟨fun _ _ _ h h' => ⟨h'.calls.trans h.calls, h'.acknowledged.trans h.acknowledged⟩⟩

theorem Stores.silent (h : Stores w w') : Silent name w w' :=
  ⟨h.calls name, by rw [h.transport]⟩

theorem Sends.silent (h : Sends w w') : Silent name w w' := ⟨h.calls name, h.acknowledged name⟩

theorem Acked.of_silent {offsets : List String} (h : Acked name offsets u u')
    (hw : Silent name w u) (hw' : Silent name u' w') : Acked name offsets w w' := by
  refine ⟨?_, fun o => ?_⟩
  · rw [hw'.calls, h.calls, hw.calls]
  · rw [hw'.acknowledged, h.acknowledged, hw.acknowledged]

end World

open World (Silent)

/-- No message of the topic was acknowledged in a publish. -/
def Scope.Silent (name : String) (s s' : Scope κ) : Prop := World.Silent name s.world s'.world

instance (name : String) : Std.Refl (Scope.Silent (κ := κ) name) := ⟨fun s => Std.Refl.refl s.world⟩

instance (name : String) : IsTrans (Scope κ) (Scope.Silent name) :=
  ⟨fun s t u h h' => (IsTrans.trans s.world t.world u.world h h' : World.Silent name _ _)⟩

/-- The consumer's custom stages and what its application publishes acknowledge nothing on its
topic. -/
structure Worker.Tacit (w : Worker κ) : Prop where
  pipeline : ∃ custom, w.service.pipeline = .create w.service.wire custom ∧
    ∀ st ∈ custom, st.Keeps (Silent w.endpoint.name)
  publisher : ∀ ms, (w.service.publisher.publish ms).Keeps (Scope.Silent w.endpoint.name)

theorem Worker.Tacit.along {w : Worker κ} (h : w.Tacit) :
    w.Along (Silent w.endpoint.name) (Scope.Silent w.endpoint.name) :=
  ⟨fun _ _ h => h.silent, fun _ _ h _ => h, h.pipeline, h.publisher⟩

/-- A commit acknowledges nothing. -/
theorem Transaction.commit_silent {name : String} (tx : Transaction κ) (wire : Wire)
    (h : tx.Along (Silent name)) : Within (Silent name) (tx.commit wire) :=
  commit_along (fun _ _ h => h.silent) ((flush_sends _ _).mono fun _ _ h => h.silent) h

/-! ## Batches that are given up -/

namespace Attempt

variable {endpoint target : Endpoint} {ms : List RawMessage} {failed : UInt32} {w : World κ}

/-- The messages that a batch is settled into are produced to the target. -/
def Produces (s : Service κ) (endpoint target : Endpoint) (failed : UInt32) (ms : List RawMessage)
    (w : World κ) : Prop :=
  ∃ settled tx u v, Settlement.batch s.wire endpoint ms w = .ok (settled, tx) u ∧
    Settlement.move endpoint target failed settled
      (endState (World.useProducer (ε := TransportError) s.broker target) u) = .ok () v

/-- The commit of a settled batch, and its acknowledgement. -/
theorem finish_obliging (h : w.Obliging endpoint ms) {tx : Transaction κ}
    (ht : tx.Answered w.log w.chunks) (wire : Wire) :
    ∃ u, ((tx.commit wire).mapError StoreError.message >>= fun _ =>
      (acknowledge endpoint ms).mapError TransportError.message) w = .ok () u ∧
      Acked endpoint.name (offsets ms) w u := by
  obtain ⟨u, hu, hs⟩ := Transaction.commit_obliging h ht wire
  have hspared : u.Spares .acknowledge := (h.spared _ (by decide) (by decide)).of_plan hs.plan
  have htopic : (u.transport.topic? endpoint.name).isSome := by
    rw [hs.transport]
    exact h.topic
  obtain ⟨v, hv, hack⟩ := acknowledge_obliging hspared htopic ms
  refine ⟨v, ?_, hack.of_silent hs.silent (Std.Refl.refl v)⟩
  rw [bind_of_ok (Op.mapError_ok.mpr hu)]
  exact Op.mapError_ok.mpr hv

theorem skip_obliging (h : w.Obliging endpoint ms) (s : Service κ) :
    ∃ u, skip s endpoint ms w = .ok () u ∧ Acked endpoint.name (offsets ms) w u := by
  obtain ⟨settled, tx, u, hu, hsteady, hs, ht⟩ := Settlement.batch_obliging h s.wire
  obtain ⟨v, hv, hack⟩ := finish_obliging (h.steadfast hsteady) ht s.wire
  refine ⟨v, ?_, hack.of_silent hs.silent (Std.Refl.refl v)⟩
  unfold skip
  rw [bind_of_ok (Op.mapError_ok.mpr hu)]
  exact hv

theorem move_obliging (h : w.Obliging endpoint ms) (s : Service κ)
    (hp : Produces s endpoint target failed ms w) :
    ∃ u, move s endpoint target failed ms w = .ok () u ∧ Acked endpoint.name (offsets ms) w u := by
  obtain ⟨settled, tx, u, v, hu, hv⟩ := hp
  obtain ⟨settled', tx', u', hu', hsteady, hs, ht⟩ := Settlement.batch_obliging h s.wire
  cases hu.symm.trans hu'
  -- producing leaves the stores as they are
  have hsends : Sends u v := IsTrans.trans _ _ _
    (World.useProducer_sends (ε := TransportError) s.broker target u)
    ((Settlement.move_sends endpoint target failed settled).ok hv)
  have hanswered : tx.Answered v.log v.chunks := by
    rw [hsends.log, hsends.chunks]
    exact ht
  obtain ⟨x, hx, hack⟩ :=
    finish_obliging ((h.steadfast hsteady).steadfast hsends.steadfast) hanswered s.wire
  refine ⟨x, ?_, hack.of_silent (IsTrans.trans _ _ _ hs.silent hsends.silent) (Std.Refl.refl x)⟩
  rw [move_eq s hu, bind_of_ok (Op.attempt_eq _ _), Op.exec_ok.mpr hv]
  exact hx

/-- A batch that cannot be moved is not acknowledged. -/
theorem move_unproduced (s : Service κ) (hp : ¬ Produces s endpoint target failed ms w) :
    ∃ reason u, move s endpoint target failed ms w = .error reason u ∧
      Silent endpoint.name w u := by
  have hbatch : Within Stores (Settlement.batch s.wire endpoint ms : Op κ InboundError _) :=
    Settlement.batch_stores s.wire endpoint ms
  cases hu : Settlement.batch s.wire endpoint ms w with
  | error e u =>
    refine ⟨e.message, u, ?_, (hbatch.error hu).silent⟩
    unfold move
    exact bind_of_error (Op.mapError_error.mpr ⟨e, hu, rfl⟩)
  | ok r u =>
    obtain ⟨settled, tx⟩ := r
    have hwu : Silent endpoint.name w u := (hbatch.ok hu).silent
    have hused := World.useProducer_sends (ε := TransportError) s.broker target u
    cases hv : Settlement.move endpoint target failed settled
        (endState (World.useProducer (ε := TransportError) s.broker target) u) with
    | ok _ v => exact absurd ⟨settled, tx, u, v, hu, hv⟩ hp
    | error e v =>
      have hsends : Sends u v := IsTrans.trans _ _ _ hused
        ((Settlement.move_sends endpoint target failed settled).error hv)
      obtain ⟨htaken, -⟩ := Settlement.many_ok (Settlement.batch_ok.mp hu)
      have halong : tx.Along (Silent endpoint.name) := fun r hr => by
        rw [(htaken.sound (Transaction.sound_empty _)).resources] at hr
        cases hr
      have hroll : Silent endpoint.name v (endState (tx.rollback s.wire) v) :=
        Transaction.rollback_along halong v
      refine ⟨moveFailed target e, endState (tx.rollback s.wire) v, ?_,
        IsTrans.trans _ _ _ (IsTrans.trans _ _ _ hwu hsends.silent) hroll⟩
      rw [move_eq s hu, bind_of_ok (Op.attempt_eq _ _), Op.exec_error.mpr hv]
      dsimp only
      rw [bind_of_ok (Op.attempt_eq _ _), Op.exec_world]
      rfl

end Attempt

/-! ## What an attempt sees -/

/-- The message as the attempt after `n` failed ones sees it: as it was delivered but for one header
with the number of failures, which the first attempt does not see. -/
structure RawMessage.AfterFailures (n : Nat) (m m' : RawMessage) : Prop where
  payload : m'.payload = m.payload
  offset : m'.offset = m.offset
  first : n = 0 → m' = m
  failedAttempts : n ≠ 0 → m'.headers.get? Headers.failedAttempts = some (toString n)
  others : m'.headers.entries.filter (fun e => !sameName e.1 Headers.failedAttempts) =
    m.headers.entries.filter fun e => !sameName e.1 Headers.failedAttempts

namespace Attempt

theorem marked_forall {n : Nat} (hn : n ≠ 0) (hlt : n < UInt32.size) (ms : List RawMessage) :
    List.Forall₂ (RawMessage.AfterFailures n) ms (marked (UInt32.ofNat n) ms) := by
  unfold marked
  rw [UInt32.toNat_ofNat_of_lt' hlt, List.forall₂_map_right_iff, List.forall₂_same]
  intro m _
  exact ⟨rfl, rfl, fun h => absurd h hn, fun _ => Headers.get?_insert_self _ _ _,
    Headers.others_put _ _ _⟩

theorem seen_forall {n : Nat} (hlt : n < UInt32.size) (ms : List RawMessage) :
    List.Forall₂ (RawMessage.AfterFailures n) ms (seen n ms) := by
  unfold seen
  split
  · next hn =>
    rw [List.forall₂_same]
    intro m _
    exact ⟨rfl, rfl, fun _ => rfl, fun h => absurd hn h, rfl⟩
  · next hn => exact marked_forall hn hlt ms

/-- The stores and the transport oblige for what an attempt sees as for what was delivered. -/
theorem seen_obliging {endpoint : Endpoint} {ms : List RawMessage} {w : World κ} (n : Nat)
    (h : w.Obliging endpoint ms) : w.Obliging endpoint (seen n ms) := by
  unfold seen
  split
  · exact h
  · refine ⟨h.spared, ?_, h.topic⟩
    intro m hm id hid
    obtain ⟨m', hm', rfl⟩ := List.mem_map.mp hm
    rw [Headers.get?_insert_of_ne _ _ (by decide)] at hid
    exact h.answers m' hm' id hid

end Attempt

/-! ## Where the batch ends -/

namespace Trail

/-- Attempt `n`, counted from one, is over and has succeeded. -/
def Succeeded (t : Trail κ) (n : Nat) : Prop :=
  ∃ a, t.tried[n - 1]? = some a ∧ a.outcome.error? = none

/-- Attempt `n`, counted from one, is over and has failed fatally. -/
def FailedFatally (t : Trail κ) (n : Nat) : Prop :=
  ∃ a e, t.tried[n - 1]? = some a ∧ a.outcome.error? = some e ∧ e.isFatal = true

/-- The batch is not tried again after attempt `n`: that succeeds, or it fails fatally, or the
policy does not ask for a retry after `n` failures. -/
def Decisive (t : Trail κ) (n : Nat) : Prop :=
  1 ≤ n ∧ n < UInt32.size ∧ (t.Succeeded n ∨ t.FailedFatally n ∨
    ∀ delay, Policy.decideWith t.worker.settings.policy (UInt32.ofNat n) ≠ .ok (.retry delay))

end Trail

namespace Worker

/-- The batch was acknowledged, and the worker goes on. -/
def Acknowledges (w : Worker κ) (batch : List RawMessage) (world : World κ) (phase : Phase κ)
    (world' : World κ) : Prop :=
  phase = .ready ∧ Acked w.endpoint.name (Attempt.offsets batch) world world'

/-- Nothing was acknowledged, and the worker has stopped for the reason. -/
def GivesUp (w : Worker κ) (reason : String) (world : World κ) (phase : Phase κ)
    (world' : World κ) : Prop :=
  phase = .failed reason ∧ Silent w.endpoint.name world world'

/-- What follows the last attempt at a batch, failure number `n` if it is one. -/
inductive Exits (w : Worker κ) (batch : List RawMessage) (n : Nat) (a : Tried κ) (world : World κ)
    (phase : Phase κ) (world' : World κ) : Prop
  | succeeded (he : a.outcome.error? = none)
    (h : a.world.Obliging w.endpoint batch → w.Acknowledges batch world phase world')
  | fatal {e : InboundError} (he : a.outcome.error? = some e) (hf : e.isFatal = true)
    (h : w.GivesUp e.message world phase world')
  /-- The policy has the consumer stop. -/
  | stopped {e : InboundError} (he : a.outcome.error? = some e) (hf : e.isFatal = false)
    (hd : Policy.decideWith w.settings.policy (UInt32.ofNat n) = .ok .fatal)
    (h : w.GivesUp e.message world phase world')
  | skipped {e : InboundError} (he : a.outcome.error? = some e) (hf : e.isFatal = false)
    (hd : Policy.decideWith w.settings.policy (UInt32.ofNat n) = .ok .skip)
    (h : a.world.Obliging w.endpoint batch → w.Acknowledges batch world phase world')
  | moved {e : InboundError} {target : Endpoint} (he : a.outcome.error? = some e)
    (hf : e.isFatal = false)
    (hd : Policy.decideWith w.settings.policy (UInt32.ofNat n) = .ok (.move target))
    (hp : Attempt.Produces w.service w.endpoint target (UInt32.ofNat n) a.batch a.world)
    (h : a.world.Obliging w.endpoint batch → w.Acknowledges batch world phase world')
  | unmoved {e : InboundError} {target : Endpoint} {reason : String}
    (he : a.outcome.error? = some e) (hf : e.isFatal = false)
    (hd : Policy.decideWith w.settings.policy (UInt32.ofNat n) = .ok (.move target))
    (hp : ¬ Attempt.Produces w.service w.endpoint target (UInt32.ofNat n) a.batch a.world)
    (h : w.GivesUp reason world phase world')

variable {w : Worker κ} {batch : List RawMessage} {a : Tried κ} {n : Nat} {phase : Phase κ}
  {world world' u v : World κ}

theorem Acknowledges.of_silent (h : w.Acknowledges batch u phase v)
    (hu : Silent w.endpoint.name world u) (hv : Silent w.endpoint.name v world') :
    w.Acknowledges batch world phase world' :=
  ⟨h.1, h.2.of_silent hu hv⟩

theorem GivesUp.of_silent {reason : String} (h : w.GivesUp reason u phase v)
    (hu : Silent w.endpoint.name world u) (hv : Silent w.endpoint.name v world') :
    w.GivesUp reason world phase world' :=
  ⟨h.1, IsTrans.trans _ _ _ hu (IsTrans.trans _ _ _ h.2 hv)⟩

/-- Nothing is acknowledged before the last attempt is over, nor after what follows it. -/
theorem Exits.of_silent (h : w.Exits batch n a u phase v)
    (hu : Silent w.endpoint.name world u) (hv : Silent w.endpoint.name v world') :
    w.Exits batch n a world phase world' := by
  cases h with
  | succeeded he h => exact .succeeded he fun ho => (h ho).of_silent hu hv
  | fatal he hf h => exact .fatal he hf (h.of_silent hu hv)
  | stopped he hf hd h => exact .stopped he hf hd (h.of_silent hu hv)
  | skipped he hf hd h => exact .skipped he hf hd fun ho => (h ho).of_silent hu hv
  | moved he hf hd hp h => exact .moved he hf hd hp fun ho => (h ho).of_silent hu hv
  | unmoved he hf hd hp h => exact .unmoved he hf hd hp (h.of_silent hu hv)

theorem resolve_exits {now : Nat}
    (hfits : ∀ k overflow, Policy.decideWith w.settings.policy k ≠ .error overflow)
    (hb : a.batch = Attempt.seen (n - 1) batch) (hk : a.failed + 1 = UInt32.ofNat n)
    (hlast : ¬ a.Again w.settings.policy n) :
    w.Exits batch n a a.world (w.resolve now a).1 (w.resolve now a).2 := by
  have hoff : Attempt.offsets a.batch = Attempt.offsets batch := by
    rw [hb, Attempt.offsets_seen]
  have hseen : a.world.Obliging w.endpoint batch → a.world.Obliging w.endpoint a.batch := by
    rw [hb]
    exact Attempt.seen_obliging (n - 1)
  cases he : a.outcome.error? with
  | none =>
    refine .succeeded he fun ho => ?_
    obtain ⟨u, hu, hack⟩ := Attempt.acknowledge_obliging
      (ho.spared _ (by decide) (by decide)) ho.topic a.batch
    unfold resolve
    rw [he]
    dsimp only
    rw [Op.exec_ok.mpr (Op.mapError_ok.mpr hu)]
    exact ⟨rfl, hoff ▸ hack⟩
  | some e =>
    rw [resolve_error he]
    cases hf : e.isFatal with
    | true =>
      rw [giveWay_fatal hf]
      exact .fatal he hf ⟨rfl, Std.Refl.refl _⟩
    | false =>
      cases hd : Policy.decideWith w.settings.policy (UInt32.ofNat n) with
      | error overflow => exact absurd hd (hfits _ _)
      | ok action =>
        rw [giveWay_decided hf hk hd]
        cases action with
        | retry delay => exact absurd ⟨e, delay, he, hf, hd⟩ hlast
        | skip =>
          refine .skipped he hf hd fun ho => ?_
          obtain ⟨u, hu, hack⟩ := Attempt.skip_obliging (hseen ho) w.service
          dsimp only
          rw [Op.exec_ok.mpr hu]
          exact ⟨rfl, hoff ▸ hack⟩
        | move target =>
          by_cases hp : Attempt.Produces w.service w.endpoint target (UInt32.ofNat n) a.batch a.world
          · refine .moved he hf hd hp fun ho => ?_
            obtain ⟨u, hu, hack⟩ := Attempt.move_obliging (hseen ho) w.service hp
            dsimp only
            rw [Op.exec_ok.mpr hu]
            exact ⟨rfl, hoff ▸ hack⟩
          · obtain ⟨reason, u, hu, hs⟩ := Attempt.move_unproduced w.service hp
            dsimp only
            rw [Op.exec_error.mpr hu]
            exact .unmoved he hf hd hp ⟨rfl, hs⟩
        | fatal => exact .stopped he hf hd ⟨rfl, Std.Refl.refl _⟩

/-- The end of an attempt acknowledges nothing. -/
theorem closes_silent {name : String} {b : List RawMessage} {k : UInt32} {tx : Transaction κ}
    (htx : tx.Along (Silent name)) (e : Option InboundError) :
    Silent name world (w.closes b k tx world e).world := by
  have hcommit := tx.commit_silent w.service.wire htx
  cases e with
  | some e =>
    have hroll : Within (Silent name) (tx.rollback w.service.wire) := Transaction.rollback_along htx
    change Silent name world ((tx.rollback w.service.wire).exec world).2
    rw [Op.exec_world]
    exact hroll world
  | none =>
    cases hx : tx.commit w.service.wire world with
    | ok _ u =>
      rw [closes_committed hx]
      exact hcommit.ok hx
    | error e u =>
      rw [closes_undone hx]
      exact hcommit.error hx

end Worker

/-! ## The batch comes to an end -/

namespace Worker

variable {w w' : Worker κ} {world world' : World κ} {now deadline : Nat} {b : List RawMessage}
  {k : UInt32} {a : Option (Tried κ)}

/-- An attempt that begins is over at once, or its publish begins. -/
theorem Turn.of_attempting (hphase : w.phase = .attempting b k)
    (h : w.Turn now world w' world' a) : w'.signal = w.signal ∧
      (a.isSome ∨ ∃ b k tx flow, w'.phase = .dispatching b k tx flow) := by
  cases h with
  | ended => exact ⟨rfl, Or.inl rfl⟩
  | launched => exact ⟨rfl, Or.inr ⟨_, _, _, _, rfl⟩⟩
  | polled hb => cases hphase.symm.trans hb
  | panicked hb => cases hphase.symm.trans hb
  | stopped hb => cases hphase.symm.trans hb
  | woken hb => cases hphase.symm.trans hb
  | waiting hb => cases hphase.symm.trans hb

/-- A pause that is not broken off ends at its deadline. -/
theorem Turn.of_pausing (hphase : w.phase = .pausing b k deadline)
    (hsignal : w.signal.changed? = none) (hdue : deadline ≤ now)
    (h : w.Turn now world w' world' a) : w' = { w with phase := .attempting b k } ∧ a = none := by
  cases h with
  | ended h =>
    cases h with
    | refused hb => cases hphase.symm.trans hb
    | nothing hb => cases hphase.symm.trans hb
    | published hb => cases hphase.symm.trans hb
  | launched hb => cases hphase.symm.trans hb
  | polled hb => cases hphase.symm.trans hb
  | panicked hb => cases hphase.symm.trans hb
  | stopped hb hs => cases hsignal.symm.trans hs
  | woken hb =>
    cases hphase.symm.trans hb
    exact ⟨rfl, rfl⟩
  | waiting hb hlt =>
    cases hphase.symm.trans hb
    exact absurd hdue (Nat.not_le_of_lt hlt)

end Worker

namespace Trail

/-- The worker is in the publish of an attempt. -/
def Publishing (t : Trail κ) : Prop := ∃ b k tx flow, t.worker.phase = .dispatching b k tx flow

/-- The trail can go on to one of which `P` holds, and the worker is not told to stop. -/
def Leads (R : World κ → World κ → Prop) (t : Trail κ) (P : Trail κ → Prop) : Prop :=
  ∃ t', Steps R t t' ∧ t'.worker.signal = t.worker.signal ∧ P t'

/-- Every publish comes to an end. -/
def PublishesEnd (R : World κ → World κ → Prop) (t : Trail κ) : Prop :=
  ∀ t', Steps R t t' → t'.Publishing → t'.Leads R fun t'' => t'.tried.length < t''.tried.length

variable {R : World κ → World κ → Prop} {S : Scope κ → Scope κ → Prop} {w : Worker κ}
  {batch : List RawMessage} {world : World κ} {t t' : Trail κ} {P : Trail κ → Prop}

theorem Leads.after (h : t'.Leads R P) (ht : Steps R t t')
    (hs : t'.worker.signal = t.worker.signal) : t.Leads R P := by
  obtain ⟨t'', ht', hs', hp⟩ := h
  exact ⟨t'', ht.trans ht', hs'.trans hs, hp⟩

theorem PublishesEnd.after (h : t.PublishesEnd R) (ht : Steps R t t') : t'.PublishesEnd R :=
  fun t'' ht' => h t'' (ht.trans ht')

/-- A publish ends. -/
theorem PublishesEnd.leads (h : t.PublishesEnd R) (hp : t.Publishing) :
    t.Leads R fun t' => t.tried.length < t'.tried.length := h t .refl hp

/-- An attempt that begins comes to an end. -/
theorem attempting_leads {b : List RawMessage} {k : UInt32} (h : t.PublishesEnd R)
    (hphase : t.worker.phase = .attempting b k) :
    t.Leads R fun t' => t.tried.length < t'.tried.length := by
  have hstep : Step R t (t.work 0) := .work 0 (by rw [hphase]; rfl)
  obtain ⟨hsignal, hturn⟩ :=
    Worker.Turn.of_attempting hphase (Worker.turn 0 t.world (by rw [hphase]; rfl))
  rcases hturn with hsome | hpub
  · refine ⟨t.work 0, .single hstep, hsignal, ?_⟩
    obtain ⟨a, ha⟩ := Option.isSome_iff_exists.mp hsome
    simp [work, ha]
  · obtain ⟨t', ht', hs', hlt⟩ := (h.after (.single hstep)).leads hpub
    refine ⟨t', .head hstep ht', hs'.trans hsignal, Nat.lt_of_le_of_lt ?_ hlt⟩
    exact (List.prefix_append _ _).length_le

section
variable [Std.Refl R] [IsTrans (World κ) R] [Std.Refl S] [IsTrans (Scope κ) S]

theorem length_lt (hw : w.Along R S) (ht : Steps R (start w batch world) t) :
    t.tried.length < UInt32.size := by
  obtain ⟨-, h⟩ := standing hw batch world ht
  cases h with
  | busy _ htried => exact Nat.lt_of_succ_lt htried.room
  | closed heq _ htried =>
    rw [heq, List.length_append, List.length_singleton]
    exact htried.room
  | panicked _ htried => exact Nat.lt_of_succ_lt htried.room
  | stopped _ _ htried => exact Nat.lt_of_succ_lt htried.room

/-- **As long as publishes come to an end, so does the batch.** The induction is on the failures that
can still be counted. -/
theorem ends (hw : w.Along R S) (ht : Steps R (start w batch world) t)
    (hsignal : t.worker.signal.changed? = none) (hpub : t.PublishesEnd R) :
    t.Leads R fun t' => t'.worker.phase.isBusy = false := by
  induction hd : UInt32.size - t.tried.length using Nat.strongRecOn generalizing t with
  | ind d ih =>
    have hlt := length_lt hw ht
    -- from where an attempt more is over it goes on by induction
    have honward : t.Leads R (fun t' => t.tried.length < t'.tried.length) →
        t.Leads R fun t' => t'.worker.phase.isBusy = false := by
      rintro ⟨t', ht', hs', hlt'⟩
      exact (ih _ (by omega) (ht.trans ht') (hs' ▸ hsignal) (hpub.after ht') rfl).after ht' hs'
    cases hphase : t.worker.phase with
    | attempting b k => exact honward (attempting_leads hpub hphase)
    | dispatching b k tx flow => exact honward (hpub.leads ⟨b, k, tx, flow, hphase⟩)
    | pausing b k deadline =>
      have hstep : Step R t (t.work deadline) := .work deadline (by rw [hphase]; rfl)
      obtain ⟨hworker, hnone⟩ := Worker.Turn.of_pausing hphase hsignal (Nat.le_refl deadline)
        (Worker.turn deadline t.world (by rw [hphase]; rfl))
      have hphase' : (t.work deadline).worker.phase = .attempting b k := congrArg Worker.phase hworker
      have hsignal' : (t.work deadline).worker.signal = t.worker.signal := by
        change (t.worker.step deadline t.world).worker.signal = _
        rw [hworker]
      have htried : (t.work deadline).tried = t.tried := by simp [work, hnone]
      have hlead :=
        (attempting_leads (hpub.after (.single hstep)) hphase').after (.single hstep) hsignal'
      rw [htried] at hlead
      exact honward hlead
    | _ => exact ⟨t, .refl, rfl, congrArg Phase.isBusy hphase⟩

end

/-- An attempt after which the batch is tried again does not end it. -/
theorem undecided {before after : List (Tried κ)} (heq : t.tried = before ++ after)
    (h : Retried t.worker.settings.policy batch before) {n : Nat} (hn : n ≤ before.length) :
    ¬ t.Decisive n := by
  rintro ⟨hpos, -, hcase⟩
  obtain ⟨-, -, e, delay, he, hfatal, hd⟩ := h (n - 1) (by omega)
  have hlt : n - 1 < before.length := by omega
  have hget : t.tried[n - 1]? = some before[n - 1] := by
    rw [heq, List.getElem?_append_left hlt, List.getElem?_eq_getElem]
  rw [Nat.sub_add_cancel hpos] at hd
  rcases hcase with ⟨a, ha, hnone⟩ | ⟨a, e', ha, he', hfatal'⟩ | hpolicy
  · cases hget.symm.trans ha
    cases he.symm.trans hnone
  · cases hget.symm.trans ha
    cases he.symm.trans he'
    cases hfatal.symm.trans hfatal'
  · exact hpolicy delay hd

/-- The attempt that closes a batch is the first that can. -/
theorem closed_isLeast {before : List (Tried κ)} {a : Tried κ} (heq : t.tried = before ++ [a])
    (h : Retried t.worker.settings.policy batch before)
    (hlast : ¬ a.Again t.worker.settings.policy (before.length + 1)) :
    IsLeast {n | t.Decisive n} t.tried.length := by
  have hlen : t.tried.length = before.length + 1 := by rw [heq]; simp
  have hget : t.tried[before.length + 1 - 1]? = some a := by rw [heq]; simp
  rw [hlen]
  refine ⟨⟨Nat.le_add_left 1 _, h.room, ?_⟩, fun n hn => ?_⟩
  · by_contra hcase
    simp only [not_or, not_forall, not_not] at hcase
    obtain ⟨hsucc, hfatal, delay, hd⟩ := hcase
    cases he : a.outcome.error? with
    | none => exact hsucc ⟨a, hget, he⟩
    | some e =>
      refine hlast ⟨e, delay, he, ?_, hd⟩
      by_contra hf
      exact hfatal ⟨a, e, hget, he, by simpa using hf⟩
  · by_contra hlt
    exact undecided heq h (by omega) hn

/-- Every attempt that is over counted the failures before it and saw the batch as it should. -/
theorem attempt_saw {S : Scope κ → Scope κ → Prop} [Std.Refl R] [IsTrans (World κ) R]
    (h : Standing R S w world batch t) {n : Nat} {a : Tried κ} (ha : t.tried[n]? = some a) :
    a.failed.toNat = n ∧ List.Forall₂ (RawMessage.AfterFailures n) batch a.batch := by
  -- before the last attempt they are all followed by another one
  have hretried : ∀ {as : List (Tried κ)}, Retried w.settings.policy batch as → ∀ {a : Tried κ},
      as[n]? = some a →
      a.failed.toNat = n ∧ List.Forall₂ (RawMessage.AfterFailures n) batch a.batch := by
    intro as htried a ha
    obtain ⟨hn, rfl⟩ := List.getElem?_eq_some_iff.mp ha
    obtain ⟨hb, hf, -⟩ := htried n hn
    rw [hb]
    exact ⟨hf, Attempt.seen_forall (by have := htried.room; omega) batch⟩
  cases h with
  | busy _ htried => exact hretried htried ha
  | @closed before k tx u v now heq hf htried =>
    rw [heq] at ha
    by_cases hlt : n < before.length
    · rw [List.getElem?_append_left hlt] at ha
      exact hretried htried ha
    · obtain ⟨hn, -⟩ := List.getElem?_eq_some_iff.mp ha
      obtain rfl : n = before.length := by
        rw [List.length_append, List.length_singleton] at hn
        omega
      rw [List.getElem?_concat_length] at ha
      cases ha
      obtain ⟨hb, hk⟩ := w.closes_batch (Attempt.seen before.length batch) k tx u v
      rw [hb, hk]
      exact ⟨hf, Attempt.seen_forall (Nat.lt_of_succ_lt htried.room) batch⟩
  | panicked _ htried => exact hretried htried ha
  | stopped _ _ htried => exact hretried htried ha

/-- What becomes of a batch that its last attempt has closed. -/
theorem closed_exits (hfits : ∀ k overflow, Policy.decideWith w.settings.policy k ≠ .error overflow)
    {before : List (Tried κ)} {k : UInt32} {tx : Transaction κ} {u v : World κ}
    {e : Option InboundError} {now : Nat} (hk : k.toNat = before.length)
    (hlast : ¬ (w.closes (Attempt.seen before.length batch) k tx u e).Again w.settings.policy
      (before.length + 1))
    (htx : tx.Along (Silent w.endpoint.name)) (hu : Silent w.endpoint.name world u)
    (hv : Silent w.endpoint.name
      (w.resolve now (w.closes (Attempt.seen before.length batch) k tx u e)).2 v) :
    w.Exits batch (before.length + 1) (w.closes (Attempt.seen before.length batch) k tx u e) world
      (w.resolve now (w.closes (Attempt.seen before.length batch) k tx u e)).1 v := by
  obtain ⟨hb, hf⟩ := w.closes_batch (Attempt.seen before.length batch) k tx u e
  have hnext : (w.closes (Attempt.seen before.length batch) k tx u e).failed + 1 =
      UInt32.ofNat (before.length + 1) := by
    rw [hf]
    exact Worker.next_failed hk
  exact (Worker.resolve_exits hfits hb hnext hlast).of_silent
    (IsTrans.trans _ _ _ hu (Worker.closes_silent htx e)) hv

/-- **The outcome of the batch loop**, in every state that the worker reaches before it is told to
stop, whatever others do that acknowledge nothing on its topic. The failures are counted without
wrapping, and each attempt sees them in the headers of the batch. While the worker is busy, no
attempt was decisive, nothing is acknowledged, and it is not busy for ever if publishes come to an
end. When it is not busy any more, unless a publish panicked, the first decisive attempt was its
last one, and the batch is acknowledged or not as that one and the policy have it. -/
theorem batch_ends {w : Worker κ} (hw : w.Tacit)
    (hfits : ∀ k overflow, Policy.decideWith w.settings.policy k ≠ .error overflow)
    (batch : List RawMessage) (world : World κ) {t : Trail κ}
    (ht : Steps (Silent w.endpoint.name) (start w batch world) t)
    (hraised : t.worker.signal.raised = false) (habandoned : t.worker.signal.abandoned = false) :
    t.tried.length < UInt32.size ∧
      (∀ n a, t.tried[n]? = some a →
        a.failed.toNat = n ∧ List.Forall₂ (RawMessage.AfterFailures n) batch a.batch) ∧
      (t.worker.phase.isBusy = true →
        List.Forall₂ (RawMessage.AfterFailures t.tried.length) batch t.worker.phase.inHand ∧
        (∀ n ≤ t.tried.length, ¬ t.Decisive n) ∧ Silent w.endpoint.name world t.world ∧
        (t.PublishesEnd (Silent w.endpoint.name) →
          t.Leads (Silent w.endpoint.name) fun t' => t'.worker.phase.isBusy = false)) ∧
      (t.worker.phase.isBusy = false → t.worker.phase ≠ .panicked →
        IsLeast {n | t.Decisive n} t.tried.length ∧
        ∃ a, t.tried.getLast? = some a ∧
          w.Exits batch t.tried.length a world t.worker.phase t.world) := by
  obtain ⟨hsame, h⟩ := standing hw.along batch world ht
  -- no commit acknowledges anything
  have hcalm : ∀ as : List (Tried κ), Calm (Silent w.endpoint.name) w.service.wire as :=
    fun _ => Or.inl fun tx htx => tx.commit_silent w.service.wire htx
  refine ⟨length_lt hw.along ht, fun n a ha => attempt_saw h ha, fun hbusy => ?_,
    fun hidle hpanic => ?_⟩
  · obtain ⟨hphase, htried, hr⟩ := h.of_busy hbusy
    refine ⟨?_, fun n hn => ?_, hr (hcalm _),
      ends hw.along ht (Signal.changed?_none hraised habandoned)⟩
    · rw [hphase.inHand]
      exact Attempt.seen_forall (Nat.lt_of_succ_lt htried.room) batch
    · rw [← hsame.settings] at htried
      exact undecided (List.append_nil _).symm htried hn
  · cases h with
    | busy hphase =>
      cases hp : t.worker.phase with
      | attempting | dispatching | pausing => rw [hp] at hidle; cases hidle
      | _ => rw [hp] at hphase; cases hphase
    | @closed before k tx u v now heq hk htried hlast htx hu hphase hr =>
      have hlen : t.tried.length = before.length + 1 := by rw [heq]; simp
      refine ⟨closed_isLeast heq (hsame.settings ▸ htried) (hsame.settings ▸ hlast),
        w.closes (Attempt.seen before.length batch) k tx u v, ?_, ?_⟩
      · rw [heq]
        exact List.getLast?_concat
      · rw [hphase, hlen]
        exact closed_exits hfits hk hlast htx (hu (hcalm _)) hr
    | panicked hphase => exact absurd hphase hpanic
    | stopped _ hs =>
      rw [hraised, habandoned] at hs
      simp at hs

/-! ### A batch that is skipped after two failures -/

open Course (emptyWorld ping noted noted_pipeline noted_keeps)

/-- A consumer that tries a batch twice and then skips it. Its handler fails each time. -/
def skipping : Worker Unit where
  endpoint := ⟨"orders", none, []⟩
  settings := { policy := some (.chain [.retry ⟨2, 0, 0⟩, .skip]) }
  service := noted 100
  stream := ⟨"orders", [], 0, 0, false⟩

theorem skipping_tacit : skipping.Tacit where
  pipeline := ⟨[], noted_pipeline 100, fun _ h => absurd h List.not_mem_nil⟩
  publisher := noted_keeps (R := Scope.Silent "orders") (fun _ => ⟨rfl, rfl⟩) 100

theorem skipping_fits (k : UInt32) (overflow : Overflow) :
    Policy.decideWith skipping.settings.policy k ≠ .error overflow := by
  have hlimit : ¬ durationLimit ≤ 0 := by decide
  simp only [skipping, Policy.decideWith, Policy.decide, Policy.decideFirst, Policy.canHandle,
    RetryPolicy.delay, Nat.zero_mul, Nat.add_zero, hlimit]
  split <;> simp_all [Except.map]

/-- Both attempts at a message. -/
def skipped : Trail Unit := Nat.iterate (work 0) 4 (start skipping [ping "a" "0"] emptyWorld)

theorem batch_ends_skipped :
    Steps (Silent "orders") (start skipping [ping "a" "0"] emptyWorld) skipped ∧
      IsLeast {n | skipped.Decisive n} 2 ∧ skipped.worker.phase = .ready ∧
      skipped.world.notes.length = 2 ∧ skipped.world.log.items = [⟨"a", "orders"⟩] ∧
      Acked "orders" ["0"] emptyWorld skipped.world := by
  have hsteps : Steps (Silent "orders") (start skipping [ping "a" "0"] emptyWorld) skipped :=
    (((Relation.ReflTransGen.single (.work 0 rfl)).tail (.work 0 rfl)).tail (.work 0 rfl)).tail
      (.work 0 rfl)
  have hready : skipped.worker.phase = .ready := rfl
  obtain ⟨-, -, -, hover⟩ := batch_ends skipping_tacit skipping_fits _ _ hsteps rfl rfl
  obtain ⟨hleast, a, hlast, hexits⟩ := hover rfl (by rw [hready]; exact nofun)
  refine ⟨hsteps, hleast, hready, rfl, rfl, ?_⟩
  cases hlast
  cases hexits with
  | skipped he hf hd h =>
    refine (h ⟨fun _ _ _ f hf => (by cases hf), fun m hm id hid => ?_, rfl⟩).2
    cases List.mem_singleton.mp hm
    cases hid
    exact ⟨⟨_, rfl⟩, ⟨_, rfl⟩⟩
  | succeeded he => cases he
  | fatal he hf => cases he; cases hf
  | stopped _ _ hd => cases hd
  | moved _ _ hd => cases hd
  | unmoved _ _ hd => cases hd

end Trail

end Relay
