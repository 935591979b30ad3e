import Relay.Consumer.Attempt
import Relay.Proofs.Session
/-!
# How transactions end

A commit runs through the outbox, the log, the chunks and the enlisted resources. Without enlisted
resources it leaves one of three pairs of stores: those before it, the log appended to, or the log
appended to and the chunks cleaned up (`commit_error`); where it succeeds, all is applied
(`commit_ok`). Producing, moving and rolling back change neither store (`Aside`).
-/
namespace Relay

open World (Alike Aside)

variable {κ : Type} {name : String}

/-! ## Producing -/

namespace World

/-- Producing to the endpoint, and making an id for a message, moves the world along `R`. -/
structure Posts (R : World κ → World κ → Prop) (endpoint : Endpoint) : Prop where
  fresh : ∀ w : World κ, R w { w with issued := w.issued + 1 }
  produce : ∀ payload h, Within R (World.produce endpoint payload h : Op κ TransportError Unit)

namespace Posts

variable {R : World κ → World κ → Prop} [Std.Refl R] [IsTrans (World κ) R] {endpoint : Endpoint}

theorem produceAll (h : Posts R endpoint) (ps : List (Bytes × Headers)) :
    Within R (World.produceAll endpoint ps : Op κ TransportError Unit) := by
  induction ps with
  | nil => exact within_pure ()
  | cons p ps ih => exact within_bind (h.produce _ _) fun _ => ih

theorem identify {ε : Type} (h : Posts R endpoint) (headers : Headers) :
    Within R (World.identify headers : Op κ ε (String × Headers)) := by
  have hfresh : Within R (freshId : Op κ ε String) := h.fresh
  unfold World.identify
  cases headers.get? Headers.messageId with
  | some id => exact within_pure _
  | none => exact within_bind hfresh fun _ => within_pure _

theorem send (wire : Wire) {o : Outgoing} (h : Posts R o.endpoint) :
    Within R (World.send wire o : Op κ ProduceError String) :=
  within_bind (h.identify _) fun _ =>
    within_bind (Op.within_ofExcept _) fun _ =>
      within_bind (Op.within_mapError (h.produceAll _)) fun _ => within_pure _

theorem flush (wire : Wire) {os : List Outgoing} (h : ∀ o ∈ os, Posts R o.endpoint) :
    Within R (Relay.flush wire os : Op κ StoreError Unit) := by
  induction os with
  | nil => exact within_pure ()
  | cons o os ih =>
    obtain ⟨ho, hos⟩ := List.forall_mem_cons.mp h
    exact within_bind (Op.within_mapError (ho.send wire)) fun _ => ih hos

theorem move (source : Endpoint) (h : Posts R endpoint) (failed : UInt32) (ms : List RawMessage) :
    Within R (Settlement.move source endpoint failed ms : Op κ TransportError Unit) := by
  induction ms with
  | nil => exact within_pure ()
  | cons m ms ih => exact within_bind (h.produce _ _) fun _ => ih

end Posts

theorem posts_aside (endpoint : Endpoint) : Posts (Aside (κ := κ) name) endpoint :=
  ⟨fun _ => ⟨rfl, rfl, rfl⟩, produce_aside endpoint⟩

end World

theorem flush_aside (wire : Wire) (os : List Outgoing) :
    Within (Aside name) (flush wire os : Op κ StoreError Unit) :=
  World.Posts.flush wire fun o _ => World.posts_aside o.endpoint

theorem Settlement.move_aside (source target : Endpoint) (failed : UInt32)
    (ms : List RawMessage) :
    Within (Aside name) (Settlement.move source target failed ms : Op κ TransportError Unit) :=
  (World.posts_aside target).move source failed ms

/-! ## Participants -/

theorem discard_ok {ε σ α : Type} {x : EStateM ε σ α} {s t : σ} :
    (discard x) s = .ok () t ↔ ∃ a, x s = .ok a t := by
  change EStateM.map _ x s = _ ↔ _
  unfold EStateM.map
  cases x s <;> simp

theorem discard_error {ε σ α : Type} {x : EStateM ε σ α} {e : ε} {s t : σ} :
    (discard x) s = .error e t ↔ x s = .error e t := by
  change EStateM.map _ x s = _ ↔ _
  unfold EStateM.map
  cases x s <;> simp

namespace Resource

variable {R : World κ → World κ → Prop}

/-- The first participant has committed and the others go on from there. -/
theorem commitAll_ok {r : Resource κ} {rs : List (Resource κ)} {w w' : World κ}
    (h : commitAll (r :: rs) w = .ok () w') :
    ∃ u, r.commit w = .ok () u ∧ commitAll rs u = .ok () w' := by
  obtain ⟨o, u, ho, h1⟩ := bind_ok h
  rw [Op.attempt_eq] at ho
  cases ho
  cases hc : r.commit w with
  | ok a v =>
    have he : r.commit.exec w = (.ok a, v) := Op.exec_ok.mpr hc
    rw [he] at h1
    exact ⟨v, rfl, h1⟩
  | error e v =>
    have he : r.commit.exec w = (.error e, v) := Op.exec_error.mpr hc
    rw [he] at h1
    obtain ⟨_, _, _, h2⟩ := bind_ok h1
    cases h2

/-- The first participant has failed and all are rolled back, or it has committed and the others
fail. -/
theorem commitAll_error {r : Resource κ} {rs : List (Resource κ)} {e : StoreError} {w w' : World κ}
    (h : commitAll (r :: rs) w = .error e w') :
    (∃ u, r.commit w = .error e u ∧ w' = endState (rollbackAll (r :: rs)) u) ∨
      ∃ u, r.commit w = .ok () u ∧ commitAll rs u = .error e w' := by
  rcases bind_error h with ho | ⟨o, u, ho, h1⟩
  · rw [Op.attempt_eq] at ho
    cases ho
  rw [Op.attempt_eq] at ho
  cases ho
  cases hc : r.commit w with
  | ok a v =>
    have he : r.commit.exec w = (.ok a, v) := Op.exec_ok.mpr hc
    rw [he] at h1
    exact Or.inr ⟨v, rfl, h1⟩
  | error f v =>
    have he : r.commit.exec w = (.error f, v) := Op.exec_error.mpr hc
    rw [he] at h1
    rcases bind_error h1 with hr | ⟨o, u, hr, h2⟩
    · rw [Op.attempt_eq] at hr
      cases hr
    · rw [Op.attempt_eq] at hr
      cases hr
      cases h2
      exact Or.inl ⟨v, rfl, Op.exec_world _ _⟩

theorem rollbackAll_within [Std.Refl R] [IsTrans (World κ) R] {rs : List (Resource κ)}
    (h : ∀ r ∈ rs, Within R r.rollback) : Within R (rollbackAll rs) := by
  induction rs with
  | nil => exact within_pure ()
  | cons r rs ih =>
    have hr := h r List.mem_cons_self
    have hrs := ih fun r hr => h r (List.mem_cons_of_mem _ hr)
    exact within_bind (Op.within_attempt hr) fun _ =>
      within_bind (Op.within_attempt hrs) fun _ => Op.within_ofExcept _

theorem commitAll_within [Std.Refl R] [IsTrans (World κ) R] {rs : List (Resource κ)}
    (h : ∀ r ∈ rs, Within R r.commit ∧ Within R r.rollback) : Within R (commitAll rs) := by
  induction rs with
  | nil => exact within_pure ()
  | cons r rs ih =>
    refine within_bind (Op.within_attempt (h r List.mem_cons_self).1) fun o => ?_
    cases o with
    | ok _ => exact ih fun r hr => h r (List.mem_cons_of_mem _ hr)
    | error e =>
      exact within_bind (Op.within_attempt (rollbackAll_within fun r hr => (h r hr).2)) fun _ =>
        within_throw e

end Resource

namespace Transaction

variable {wire : Wire} {tx : Transaction κ} {w w' : World κ}

theorem commit_ok (name : String) (hr : tx.resources = []) (h : tx.commit wire w = .ok () w') :
    ∃ log chunks, w.log.append tx.log.pending = .ok log ∧
      tx.chunks.applied w.chunks = .ok chunks ∧ Aside name { w with log, chunks } w' := by
  unfold commit participants at h
  rw [hr] at h
  obtain ⟨u, hu, h1⟩ := Resource.commitAll_ok h
  obtain ⟨v, hv, h2⟩ := Resource.commitAll_ok h1
  obtain ⟨x, hx, h3⟩ := Resource.commitAll_ok h2
  cases h3
  obtain ⟨_, hv⟩ := discard_ok.mp hv
  obtain ⟨_, hx⟩ := discard_ok.mp hx
  have hwu : Aside name w u := (flush_aside wire _).ok hu
  obtain ⟨log, hlog, huv⟩ := LogSession.commit_ok hv
  obtain ⟨chunks, hchunks, hvx⟩ := ChunkSession.commit_ok hx
  refine ⟨log, chunks, by rw [← hwu.log]; exact hlog, ?_, ?_⟩
  · rw [huv.chunks] at hchunks
    rw [← hwu.chunks]
    exact hchunks
  · refine ⟨?_, hvx.chunks, ?_⟩
    · rw [hvx.log]
      exact huv.log
    · rw [hvx.transport]
      change (v.transport.topic name).acknowledged = _
      rw [huv.transport]
      exact hwu.acknowledged

/-- The stores that a commit may leave when it fails. -/
inductive Halfway (tx : Transaction κ) (w : World κ) : InboundLog → ChunkStore → Prop
  | nothing : Halfway tx w w.log w.chunks
  | logged {log : InboundLog} (hlog : w.log.append tx.log.pending = .ok log) :
    Halfway tx w log w.chunks
  | cleaned {log : InboundLog} {chunks : ChunkStore}
    (hlog : w.log.append tx.log.pending = .ok log)
    (hchunks : w.chunks.cleanup tx.chunks.cleaned = .ok chunks) : Halfway tx w log chunks

/-- The participants every transaction has buffer what they change, so that rolling them back
changes nothing. -/
theorem rollback_pure {rs : List (Resource κ)} (h : ∀ r ∈ rs, r.rollback = pure ()) :
    Within (Aside name) (Resource.rollbackAll rs) :=
  Resource.rollbackAll_within fun r hr => h r hr ▸ within_pure ()

theorem rollback_aside (hr : tx.resources = []) : Within (Aside name) (tx.rollback wire) := by
  refine rollback_pure fun r hm => ?_
  rw [participants, hr] at hm
  simp only [List.append_nil, List.mem_cons, List.not_mem_nil, or_false] at hm
  rcases hm with rfl | rfl | rfl <;> rfl

/-- Where a commit fails, one participant has failed after those before it have committed; rolling
back changes nothing further. -/
theorem commit_stops (name : String) {e : StoreError} (hr : tx.resources = [])
    (h : tx.commit wire w = .error e w') :
    (∃ u, flush wire tx.outbox w = .error e u ∧ Aside name u w') ∨
    ∃ u, flush wire tx.outbox w = .ok () u ∧
      ((∃ v, tx.log.commit u = .error e v ∧ Aside name v w') ∨
      ∃ s v, tx.log.commit u = .ok s v ∧
        ∃ x, tx.chunks.commit v = .error e x ∧ Aside name x w') := by
  unfold commit participants at h
  rw [hr] at h
  rcases Resource.commitAll_error h with ⟨u, hu, he⟩ | ⟨u, hu, h1⟩
  · rw [he]
    exact Or.inl ⟨u, hu, rollback_pure (by simp) u⟩
  refine Or.inr ⟨u, hu, ?_⟩
  rcases Resource.commitAll_error h1 with ⟨v, hv, he⟩ | ⟨v, hv, h2⟩
  · rw [he]
    exact Or.inl ⟨v, discard_error.mp hv, rollback_pure (by simp) v⟩
  obtain ⟨s, hv⟩ := discard_ok.mp hv
  refine Or.inr ⟨s, v, hv, ?_⟩
  rcases Resource.commitAll_error h2 with ⟨x, hx, he⟩ | ⟨x, -, h3⟩
  · rw [he]
    exact ⟨x, discard_error.mp hx, rollback_pure (by simp) x⟩
  · cases h3

/-- What the outbox and the log have made of a world when their commits have succeeded. -/
theorem logged_aside (name : String) {u v : World κ} {s : LogSession}
    (hu : flush wire tx.outbox w = .ok () u) (hv : tx.log.commit u = .ok s v) :
    ∃ log, w.log.append tx.log.pending = .ok log ∧ Aside name { w with log } v := by
  have hwu : Aside name w u := (flush_aside wire _).ok hu
  obtain ⟨log, hlog, huv⟩ := LogSession.commit_ok hv
  rw [hwu.log] at hlog
  exact ⟨log, hlog, huv.log, huv.chunks.trans hwu.chunks,
    by rw [huv.transport]; exact hwu.acknowledged⟩

theorem commit_error {e : StoreError} (hr : tx.resources = [])
    (h : tx.commit wire w = .error e w') :
    ∃ log chunks, tx.Halfway w log chunks ∧ Aside name { w with log, chunks } w' := by
  rcases commit_stops name hr h with ⟨u, hu, hw⟩ | ⟨u, hu, ⟨v, hv, hw⟩ | ⟨s, v, hv, x, hx, hw⟩⟩
  · refine ⟨w.log, w.chunks, .nothing, IsTrans.trans _ _ _ ?_ hw⟩
    exact (flush_aside wire _).error hu
  · refine ⟨w.log, w.chunks, .nothing, IsTrans.trans _ u _ ?_ (IsTrans.trans _ v _ ?_ hw)⟩
    · exact (flush_aside wire _).ok hu
    · exact (LogSession.commit_error hv).aside
  obtain ⟨log, hlog, hwv⟩ := logged_aside name hu hv
  rcases ChunkSession.commit_error hx with hvx | ⟨chunks, hc, hvx⟩
  · exact ⟨log, w.chunks, .logged hlog, IsTrans.trans _ _ _ hwv (IsTrans.trans _ _ _ hvx.aside hw)⟩
  · rw [hwv.chunks] at hc
    have hcx : Aside name { w with log, chunks } x :=
      ⟨hvx.log.trans hwv.log, hvx.chunks, by rw [hvx.transport]; exact hwv.acknowledged⟩
    exact ⟨log, chunks, .cleaned hlog hc, IsTrans.trans _ _ _ hcx hw⟩

end Transaction

end Relay
