import Relay.Proofs.Consumer.Acknowledgement
import Relay.Proofs.Consumer.Deduplication
import Relay.Proofs.Obliging
/-!
# No orphaned chunks

A chunk whose message is in the log is an orphan: the chunks missing from its set are dropped when
they arrive, so that nothing ever completes it. A set that is completed is cleaned up by the
transaction that logs it; a message without chunk headers, or with malformed ones, is logged with
no look at the chunks of its id. So a consumer whose clean-ups succeed has no orphans as long as no
id is used in both ways (`no_orphans`), and may have one where an id is (`no_orphans_mixed`).

`Apart` says that a log and the chunks beside it hold no orphan. It is kept by what a transaction
shows, by the stores after every commit, however far that got, and so by every step of a consumer.
-/
namespace Relay

open World (Aside Alike Stores Sends)

variable {κ : Type}

/-! ## What is left alone -/

namespace World

/-- The stores of a consumer that alone uses them are the same, and cleaning up fails no more than
before. -/
structure Undisturbed (w w' : World κ) : Prop where
  log : w'.log = w.log
  chunks : w'.chunks = w.chunks
  spared : w.Spares .chunksCleanup → w'.Spares .chunksCleanup

instance : Std.Refl (Undisturbed (κ := κ)) := ⟨fun _ => ⟨rfl, rfl, id⟩⟩

instance : IsTrans (World κ) Undisturbed :=
  ⟨fun _ _ _ h h' => ⟨h'.log.trans h.log, h'.chunks.trans h.chunks, fun hs => h'.spared (h.spared hs)⟩⟩

theorem Sends.undisturbed {w w' : World κ} (h : Sends w w') : Undisturbed w w' :=
  ⟨h.log, h.chunks, fun hs => hs.of_plan h.plan⟩

theorem acknowledge_undisturbed (endpoint : Endpoint) (offsets : List String) :
    Within Undisturbed (acknowledge endpoint offsets : Op κ TransportError Unit) :=
  within_bind ((guardTransport_sends _ _).mono fun _ _ h => h.undisturbed) fun _ =>
    within_bind (fun _ => ⟨rfl, rfl, id⟩ : Within Undisturbed (record _)) fun _ =>
      within_bind within_get fun _ => within_bind (Op.within_ofExcept _) fun _ =>
        within_modify fun _ => ⟨rfl, rfl, id⟩

/-- The rules for failures are the same but for how often they have been used. -/
def Planned (w w' : World κ) : Prop := w'.plan = w.plan

instance : Std.Refl (Planned (κ := κ)) := ⟨fun _ => rfl⟩

instance : IsTrans (World κ) Planned := ⟨fun _ _ _ h h' => Eq.trans h' h⟩

end World

open World (Planned Undisturbed)

theorem Attempt.acknowledge_undisturbed (endpoint : Endpoint) (ms : List RawMessage) :
    Within Undisturbed (acknowledge endpoint ms : Op κ TransportError Unit) :=
  acknowledge_within (World.acknowledge_undisturbed endpoint) ms

/-- The scope of a publish does not disturb the consumer. -/
def Scope.Undisturbed (s s' : Scope κ) : Prop := World.Undisturbed s.world s'.world

instance : Std.Refl (Scope.Undisturbed (κ := κ)) := ⟨fun s => Std.Refl.refl s.world⟩

instance : IsTrans (Scope κ) Scope.Undisturbed :=
  ⟨fun s t u h h' => (IsTrans.trans s.world t.world u.world h h' : World.Undisturbed _ _)⟩

/-! ## Logs and chunks without orphans -/

/-- Whether the message comes as a chunk is decided by its id. -/
def RawMessage.Uses (chunked : String → Prop) (m : RawMessage) : Prop :=
  ∀ id, m.headers.get? Headers.messageId = some id →
    (Settlement.isChunk m.headers = true ↔ chunked id)

/-- The chunks are of messages that come in chunks, and none of these is in the log. -/
def Apart (chunked : String → Prop) (name : String) (log : List LogEntry) (chunks : List Chunk) :
    Prop :=
  ∀ d ∈ chunks, chunked d.messageId ∧ ⟨d.messageId, name⟩ ∉ log

namespace World

/-- The stores hold no orphan, and cleaning up succeeds. -/
structure Tidy (chunked : String → Prop) (name : String) (w : World κ) : Prop where
  apart : Apart chunked name w.log.items w.chunks.items
  spared : w.Spares .chunksCleanup

theorem Tidy.undisturbed {chunked : String → Prop} {name : String} {w w' : World κ}
    (h : w.Tidy chunked name) (hw : Undisturbed w w') : w'.Tidy chunked name :=
  ⟨by rw [hw.log, hw.chunks]; exact h.apart, hw.spared h.spared⟩

end World

/-- The transaction shows no orphan, and what it cleans up it has seen in the store. -/
structure Transaction.Clear (chunked : String → Prop) (name : String) (l : InboundLog)
    (c : ChunkStore) (tx : Transaction κ) : Prop where
  resources : tx.resources = []
  apart : Apart chunked name (tx.log.view l) (tx.chunks.view c)
  answered : ∀ id ∈ tx.chunks.cleaned, c.Answers id

section
variable {chunked : String → Prop}

theorem World.Tidy.clear_empty {name : String} {w : World κ} (h : w.Tidy chunked name) :
    ({} : Transaction κ).Clear chunked name w.log w.chunks where
  resources := rfl
  apart d hd := by
    have hview : d ∈ w.chunks.items := by simpa [ChunkSession.view, Chunks.cleanup] using hd
    simpa [LogSession.view] using h.apart d hview
  answered _ hid := by cases hid

/-- Taking in a message makes no orphan: a message that goes in one piece has no chunks, and a set
that is joined leaves none. -/
theorem Intake.clear {l : InboundLog} {c : ChunkStore} {raw : RawEnvelope} {tx tx' : Transaction κ}
    {o : Option (Bytes × Headers)} (h : Intake l c raw tx o tx')
    (hraw : Settlement.isChunk raw.headers = true ↔ chunked raw.messageId)
    (hc : tx.Clear chunked raw.endpoint.name l c) : tx'.Clear chunked raw.endpoint.name l c := by
  -- logging an id harms the chunks of no other one
  have hlogged : ∀ d : Chunk, d ∈ tx.chunks.view c → d.messageId ≠ raw.messageId →
      chunked d.messageId ∧ ⟨d.messageId, raw.endpoint.name⟩ ∉
        (tx.log.add ⟨raw.messageId, raw.endpoint.name⟩).view l := by
    intro d hd hn
    obtain ⟨hch, hnot⟩ := hc.apart d hd
    refine ⟨hch, fun hin => ?_⟩
    rw [LogSession.view_add, List.mem_append, List.mem_singleton] at hin
    exact hin.elim hnot fun he => hn (LogEntry.mk.inj he).1
  cases h with
  | known => exact hc
  | plain _ hread =>
    refine ⟨hc.resources, fun d hd => hlogged d hd fun he => ?_, hc.answered⟩
    have hchunk := hraw.mpr (he ▸ (hc.apart d hd).1)
    rw [hread] at hchunk
    cases hchunk
  | @held position existing hlog hread hsees htake =>
    rcases tx.chunks.take_cases existing raw.messageId position raw.payload with
      ⟨-, ht⟩ | ⟨count, ht⟩ | ⟨joined, ht⟩
    · rw [ht]
      exact hc
    · rw [ht]
      refine ⟨hc.resources, fun d hd => ?_, hc.answered⟩
      rw [ChunkSession.view_store, List.mem_append, List.mem_singleton] at hd
      rcases hd with hd | rfl
      · exact hc.apart d hd
      · refine ⟨hraw.mp (Settlement.isChunk_iff.mpr ⟨position, hread⟩), fun hin => ?_⟩
        rw [← LogSession.sees_iff hlog] at hin
        cases hin
    · rw [ht] at htake
      cases htake
  | @joined position existing payload hlog hread hsees htake =>
    rcases tx.chunks.take_cases existing raw.messageId position raw.payload with
      ⟨-, ht⟩ | ⟨count, ht⟩ | ⟨joined, ht⟩
    · rw [ht] at htake
      cases htake
    · rw [ht] at htake
      cases htake
    · rw [ht]
      refine ⟨hc.resources, fun d hd => ?_, fun id hid => ?_⟩
      · change d ∈ (tx.chunks.cleanup raw.messageId).view c at hd
        rw [ChunkSession.view_cleanup, List.mem_filter] at hd
        exact hlogged d hd.1 (by simpa using hd.2)
      · rcases ChunkSession.mem_insertId.mp hid with rfl | hid
        · exact (ChunkSession.sees_answers hsees).elim (hc.answered _) id
        · exact hc.answered id hid

theorem TakenIn.clear {l : InboundLog} {c : ChunkStore} {endpoint : Endpoint}
    {tx tx' : Transaction κ} {ms : List RawMessage} (h : TakenIn l c endpoint tx ms tx')
    (hms : ∀ m ∈ ms, m.Uses chunked) (hc : tx.Clear chunked endpoint.name l c) :
    tx'.Clear chunked endpoint.name l c := by
  induction h with
  | nil => exact hc
  | unnamed _ _ ih => exact ih (fun m hm => hms m (List.mem_cons_of_mem _ hm)) hc
  | named hraw h _ ih =>
    obtain ⟨id, hid, rfl⟩ := Settlement.ofMessage_ok hraw
    have huses := hms _ List.mem_cons_self id hid
    exact ih (fun m hm => hms m (List.mem_cons_of_mem _ hm)) (h.clear huses hc)

/-! ## Commits -/

namespace Transaction

variable {wire : Wire} {tx : Transaction κ} {name : String} {w w' : World κ}

theorem Clear.along {R : World κ → World κ → Prop} {l : InboundLog} {c : ChunkStore}
    (h : tx.Clear chunked name l c) : tx.Along R := by
  intro r hr
  rw [h.resources] at hr
  cases hr

theorem commit_planned (h : tx.Along Planned) : Within Planned (tx.commit wire) :=
  commit_along (fun _ _ h => h.plan) ((flush_sends _ _).mono fun _ _ h => h.plan) h

/-- **A commit makes no orphan**, whether it succeeds or however far it gets: what it logs of a
joined set comes with the clean-up of it, and the clean-up does not fail. -/
theorem commit_tidy (hw : w.Tidy chunked name) (hc : tx.Clear chunked name w.log w.chunks) :
    (endState (tx.commit wire) w).Tidy chunked name := by
  have hspared : (endState (tx.commit wire) w).Spares .chunksCleanup :=
    hw.spared.of_plan (commit_planned hc.along w)
  refine ⟨?_, hspared⟩
  clear hspared
  -- the stores after the log was written and the sets were cleaned up
  have hcleaned : ∀ {log chunks}, w.log.append tx.log.pending = .ok log →
      w.chunks.cleanup tx.chunks.cleaned = .ok chunks → Apart chunked name log.items chunks.items := by
    intro log chunks hlog hchunks d hd
    rw [ChunkStore.cleanup_items hchunks] at hd
    obtain ⟨hch, hnot⟩ := hc.apart d (List.mem_append_left _ hd)
    refine ⟨hch, fun hin => hnot ?_⟩
    rw [InboundLog.append_items hlog] at hin
    exact List.mem_append.mpr (LogEntries.mem_append.mp hin)
  unfold endState
  cases h : tx.commit wire w with
  | ok _ w' =>
    obtain ⟨log, chunks, hlog, hchunks, ha⟩ := commit_ok name hc.resources h
    dsimp only
    rw [ha.log, ha.chunks]
    intro d hd
    change d ∈ chunks.items at hd
    rw [ChunkSession.applied_items hchunks] at hd
    obtain ⟨hch, hnot⟩ := hc.apart d (List.mem_append.mpr (Chunks.mem_store hd))
    refine ⟨hch, fun hin => hnot ?_⟩
    change _ ∈ log.items at hin
    rw [InboundLog.append_items hlog] at hin
    exact List.mem_append.mpr (LogEntries.mem_append.mp hin)
  | error e w' =>
    dsimp only
    have hsame : ∀ {u : World κ}, Aside name w u → Aside name u w' →
        Apart chunked name w'.log.items w'.chunks.items := by
      intro u hu hu'
      rw [hu'.log, hu'.chunks, hu.log, hu.chunks]
      exact hw.apart
    rcases commit_stops name hc.resources h with
      ⟨u, hu, ha⟩ | ⟨u, hu, ⟨v, hv, ha⟩ | ⟨s, v, hv, x, hx, ha⟩⟩
    · exact hsame ((flush_aside wire _).error hu) ha
    · refine hsame (IsTrans.trans _ u _ ((flush_aside wire _).ok hu) ?_) ha
      exact (LogSession.commit_error hv).aside
    · obtain ⟨log, hlog, hwv⟩ := logged_aside name hu hv
      have hsv : v.Spares .chunksCleanup := by
        refine hw.spared.of_plan (Eq.trans ?_ ((flush_sends wire _).ok hu).plan)
        exact ((LogSession.commit_stores _).ok hv).plan
      have hk : ∀ id ∈ tx.chunks.cleaned, v.chunks.Answers id := by
        rw [hwv.chunks]
        exact hc.answered
      obtain ⟨chunks, hchunks, hvx, -⟩ := ChunkSession.commit_cleaned hsv hk hx
      rw [hwv.chunks] at hchunks
      rw [ha.log, ha.chunks, hvx.log, hvx.chunks]
      change Apart chunked name v.log.items chunks.items
      rw [hwv.log]
      exact hcleaned hlog hchunks

theorem rollback_tidy (hw : w.Tidy chunked name) (hr : tx.resources = []) :
    (endState (tx.rollback wire) w).Tidy chunked name := by
  have ha : Aside name w (endState (tx.rollback wire) w) := rollback_aside hr w
  have halong : tx.Along Planned := fun r hm => by rw [hr] at hm; cases hm
  refine hw.undisturbed ⟨ha.log, ha.chunks, fun hs => hs.of_plan ?_⟩
  exact rollback_along halong w

end Transaction

/-! ## Settling -/

theorem Settlement.batch_undisturbed (wire : Wire) (endpoint : Endpoint) (ms : List RawMessage) :
    Within Undisturbed (batch wire endpoint ms : Op κ InboundError _) := by
  have hstores : Within Stores (batch wire endpoint ms : Op κ InboundError _) :=
    batch_stores wire endpoint ms
  refine within_intro (fun r w w' h => ?_) fun e w w' h => ?_
  · obtain ⟨-, hw⟩ := many_ok (batch_ok.mp h)
    exact ⟨hw.log, hw.chunks, fun hs => hs.of_plan (hstores.ok h).plan⟩
  · have ha : Aside endpoint.name w w' := Attempt.batch_aside h
    exact ⟨ha.log, ha.chunks, fun hs => hs.of_plan (hstores.error h).plan⟩

namespace Attempt

variable {endpoint : Endpoint} {ms : List RawMessage} {w w' : World κ}

theorem batch_clear {wire : Wire} {settled : List RawMessage} {tx : Transaction κ}
    (h : Settlement.batch wire endpoint ms w = .ok (settled, tx) w')
    (hms : ∀ m ∈ ms, m.Uses chunked) (hw : w.Tidy chunked endpoint.name) :
    tx.Clear chunked endpoint.name w'.log w'.chunks := by
  obtain ⟨htaken, ha⟩ := Settlement.many_ok (Settlement.batch_ok.mp h)
  rw [ha.log, ha.chunks]
  exact htaken.clear hms hw.clear_empty

/-- A commit and an acknowledgement. -/
theorem finish_tidy {wire : Wire} {tx : Transaction κ} (hw : w.Tidy chunked endpoint.name)
    (hc : tx.Clear chunked endpoint.name w.log w.chunks) :
    (endState ((tx.commit wire).mapError StoreError.message >>= fun _ =>
      (acknowledge endpoint ms).mapError TransportError.message) w).Tidy chunked endpoint.name := by
  have hcommit : (endState (tx.commit wire) w).Tidy chunked endpoint.name :=
    Transaction.commit_tidy hw hc
  refine endState_bind (by rwa [Op.endState_mapError]) fun _ u _ hu => ?_
  rw [Op.endState_mapError]
  exact hu.undisturbed (acknowledge_undisturbed endpoint ms u)

theorem skip_tidy (s : Service κ) (hms : ∀ m ∈ ms, m.Uses chunked)
    (hw : w.Tidy chunked endpoint.name) :
    (endState (skip s endpoint ms) w).Tidy chunked endpoint.name := by
  refine endState_bind ?_ fun r u hu htidy => ?_
  · rw [Op.endState_mapError]
    exact hw.undisturbed (Settlement.batch_undisturbed s.wire endpoint ms w)
  · exact finish_tidy htidy (batch_clear (Op.mapError_ok.mp hu) hms hw)

theorem move_tidy (s : Service κ) (target : Endpoint) (failed : UInt32)
    (hms : ∀ m ∈ ms, m.Uses chunked) (hw : w.Tidy chunked endpoint.name) :
    (endState (move s endpoint target failed ms) w).Tidy chunked endpoint.name := by
  refine endState_bind ?_ fun r u hu htidy => ?_
  · rw [Op.endState_mapError]
    exact hw.undisturbed (Settlement.batch_undisturbed s.wire endpoint ms w)
  obtain ⟨settled, tx⟩ := r
  have hclear := batch_clear (Op.mapError_ok.mp hu) hms hw
  -- choosing the producer and producing
  have hproducer : Undisturbed u (endState (World.useProducer (ε := String) s.broker target) u) :=
    (World.useProducer_sends s.broker target u).undisturbed
  refine endState_bind (htidy.undisturbed hproducer) fun _ v hv htidy => ?_
  have hmoved : Within Undisturbed ((Settlement.move endpoint target failed settled).attempt :
      Op κ String _) :=
    Op.within_attempt ((Settlement.move_sends endpoint target failed settled).mono
      fun _ _ h => h.undisturbed)
  refine endState_bind (htidy.undisturbed (hmoved v)) fun o x hx htidy => ?_
  cases o with
  | error e =>
    refine endState_bind ?_ fun _ y _ hy => hy
    rw [Op.endState_attempt]
    exact Transaction.rollback_tidy htidy hclear.resources
  | ok _ =>
    refine finish_tidy htidy ?_
    have huv : Undisturbed u v := ((World.useProducer_sends s.broker target).ok hv).undisturbed
    rw [(hmoved.ok hx).log, (hmoved.ok hx).chunks, huv.log, huv.chunks]
    exact hclear

end Attempt

/-! ## Steps of the worker -/

/-- The consumer has no custom stages, and what its application publishes does not disturb its
stores. -/
structure Worker.Secluded (w : Worker κ) : Prop where
  pipeline : w.service.pipeline = .create w.service.wire []
  publisher : ∀ ms, (w.service.publisher.publish ms).Keeps Scope.Undisturbed

theorem Worker.Secluded.of_service {w w' : Worker κ} (h : w.Secluded)
    (hs : w'.service = w.service) : w'.Secluded :=
  ⟨by rw [hs]; exact h.pipeline, by rw [hs]; exact h.publisher⟩

/-- The batch of a phase uses ids in one way each, and an attempt in progress shows no orphan. -/
def Phase.Clear (chunked : String → Prop) (name : String) (w : World κ) : Phase κ → Prop
  | .filling batch _ => ∀ m ∈ batch, m.Uses chunked
  | .attempting batch _ => ∀ m ∈ batch, m.Uses chunked
  | .dispatching batch _ tx flow => (∀ m ∈ batch, m.Uses chunked) ∧
      tx.Clear chunked name w.log w.chunks ∧ flow.Keeps Scope.Undisturbed
  | .pausing batch _ _ => ∀ m ∈ batch, m.Uses chunked
  | _ => True

/-- A part of an attempt leaves no orphan behind, in the stores or in what goes on of it. -/
def Worker.Tidies (chunked : String → Prop) (name : String) (r : Phase κ × World κ) : Prop :=
  r.2.Tidy chunked name ∧ r.1.Clear chunked name r.2

theorem Attempt.marked_uses {ms : List RawMessage} (h : ∀ m ∈ ms, m.Uses chunked)
    (failed : UInt32) : ∀ m ∈ marked failed ms, m.Uses chunked := by
  intro m hm
  obtain ⟨x, hx, rfl⟩ := List.mem_map.mp hm
  intro id hid
  dsimp only at hid ⊢
  rw [Headers.get?_insert_of_ne _ _ (by decide)] at hid
  unfold Settlement.isChunk
  rw [ChunkHeaders.read_insert _ ChunkHeaders.foreign_failedAttempts]
  exact h x hx id hid

namespace Worker

variable {w : Worker κ} {now : Nat} {batch : List RawMessage} {failed : UInt32} {world : World κ}
  {tx : Transaction κ} {name : String}

theorem finished_clear (r : Except String Unit) (world : World κ) :
    (finished r : Phase κ).Clear chunked name world := by
  cases r <;> trivial

theorem giveWay_tidies (hms : ∀ m ∈ batch, m.Uses chunked)
    (hw : world.Tidy chunked w.endpoint.name) (e : InboundError) :
    Tidies chunked w.endpoint.name (w.giveWay now batch failed e world) := by
  have hmarked := Attempt.marked_uses hms (failed + 1)
  unfold giveWay
  split
  · exact ⟨hw, trivial⟩
  · dsimp only
    split
    · exact ⟨hw, trivial⟩
    · split
      · exact ⟨hw, hmarked⟩
      · exact ⟨hw, hmarked⟩
    · refine ⟨?_, finished_clear _ _⟩
      rw [Op.exec_world]
      exact Attempt.skip_tidy w.service hms hw
    · refine ⟨?_, finished_clear _ _⟩
      rw [Op.exec_world]
      exact Attempt.move_tidy w.service _ _ hms hw
    · exact ⟨hw, trivial⟩

theorem conclude_tidies (hms : ∀ m ∈ batch, m.Uses chunked)
    (hw : world.Tidy chunked w.endpoint.name)
    (hc : tx.Clear chunked w.endpoint.name world.log world.chunks) :
    Tidies chunked w.endpoint.name (w.conclude now batch failed tx world) := by
  have hcommit : (endState (tx.commit w.service.wire) world).Tidy chunked w.endpoint.name :=
    Transaction.commit_tidy hw hc
  rw [← Op.exec_world] at hcommit
  unfold conclude
  split
  · next hx =>
    rw [hx] at hcommit
    exact giveWay_tidies hms hcommit _
  · next u hx =>
    rw [hx] at hcommit
    refine ⟨?_, finished_clear _ _⟩
    rw [Op.exec_world, Op.endState_mapError]
    exact hcommit.undisturbed (Attempt.acknowledge_undisturbed w.endpoint batch u)

theorem abort_tidies (hms : ∀ m ∈ batch, m.Uses chunked)
    (hw : world.Tidy chunked w.endpoint.name) (hr : tx.resources = []) (e : InboundError) :
    Tidies chunked w.endpoint.name (w.abort now batch failed tx e world) := by
  unfold abort
  rw [Op.exec_world]
  exact giveWay_tidies hms (Transaction.rollback_tidy hw hr) e

theorem begin_tidies (hs : w.Secluded) (hms : ∀ m ∈ batch, m.Uses chunked)
    (hw : world.Tidy chunked w.endpoint.name) :
    Tidies chunked w.endpoint.name (w.begin now batch failed world) := by
  have hstages : ∀ st ∈ (Pipeline.create w.service.wire [] : Pipeline κ).stages,
      st.Keeps Stores := Pipeline.create_preserves (.of_stores fun _ _ h => h) _ (by simp)
  have hprepare := Attempt.prepare_within hstages w.endpoint batch
  unfold begin
  rw [hs.pipeline]
  cases hp : Attempt.prepare (.create w.service.wire []) w.endpoint batch ⟨{}, world⟩ with
  | error e s =>
    obtain ⟨ha, hr⟩ := Attempt.prepare_error hp
    have hplan := (hprepare.error hp).world.plan
    refine abort_tidies hms (hw.undisturbed ?_) hr e
    exact ⟨ha.log, ha.chunks, fun h => h.of_plan hplan⟩
  | ok ms s =>
    obtain ⟨htaken, ha⟩ := Attempt.prepare_ok hp
    have hplan := (hprepare.ok hp).world.plan
    have hw' : s.world.Tidy chunked w.endpoint.name :=
      hw.undisturbed ⟨ha.log, ha.chunks, fun h => h.of_plan hplan⟩
    have hc : s.transaction.Clear chunked w.endpoint.name s.world.log s.world.chunks := by
      rw [ha.log, ha.chunks]
      exact htaken.clear hms hw.clear_empty
    cases ms with
    | nil => exact conclude_tidies hms hw' hc
    | cons m ms => exact ⟨hw', hms, hc, hs.publisher _⟩

theorem proceed_tidies {flow : Work (Scope κ) Published} (hms : ∀ m ∈ batch, m.Uses chunked)
    (hw : world.Tidy chunked w.endpoint.name)
    (hc : tx.Clear chunked w.endpoint.name world.log world.chunks)
    (hf : flow.Keeps Scope.Undisturbed) :
    Tidies chunked w.endpoint.name ((w.proceed now batch failed tx flow world).1,
      (w.proceed now batch failed tx flow world).2.1) := by
  obtain ⟨hworld, hk⟩ := hf.poll now ⟨world, some tx.outbox⟩
  unfold proceed
  generalize flow.poll now ⟨world, some tx.outbox⟩ = r at hworld hk ⊢
  obtain ⟨flow', s⟩ := r
  change Undisturbed world s.world at hworld
  have hw' := hw.undisturbed hworld
  have hc' : Transaction.Clear chunked w.endpoint.name s.world.log s.world.chunks
      { tx with outbox := s.outbox.getD [] } := by
    rw [hworld.log, hworld.chunks]
    exact ⟨hc.resources, hc.apart, hc.answered⟩
  dsimp only at hk ⊢
  split
  · exact conclude_tidies hms hw' hc'
  · exact abort_tidies hms hw' hc'.resources _
  · exact ⟨hw', trivial⟩
  · exact ⟨hw', hms, hc', hk⟩

end Worker

/-! ## Runs -/

namespace Course

/-- A step of the consumer in a world that others leave undisturbed, in which every message that was
delivered uses its id in one way. -/
def Regular (chunked : String → Prop) (c c' : Course κ) : Prop :=
  Step Undisturbed c c' ∧ ∀ m ∈ c'.delivered, m.Uses chunked

/-- **The invariant of a consumer whose stores hold no orphan.** -/
structure Tended (chunked : String → Prop) (c : Course κ) : Prop where
  secluded : c.worker.Secluded
  tidy : c.world.Tidy chunked c.worker.endpoint.name
  phase : c.worker.phase.Clear chunked c.worker.endpoint.name c.world

theorem mem_taken {c : Course κ} {w w' : Worker κ} {m : RawMessage}
    (h : c.worker.take c.world = (some (.message m), w)) (hs : w'.stream = w.stream) :
    m ∈ c.taken w' := by
  obtain ⟨hi, rfl⟩ := Prod.mk.inj h
  rw [c.taken_message (Prod.ext hi hs.symm)]
  exact List.mem_singleton_self m

namespace Tended

variable {c : Course κ}

/-- A step of a worker that is not in an attempt takes messages in, and changes no store. -/
theorem idle (h : Tended chunked c) (now : Nat)
    (hnew : ∀ m ∈ c.taken (c.worker.step now c.world).worker, m.Uses chunked)
    (hp : ∀ batch failed, c.worker.phase ≠ .attempting batch failed)
    (hq : ∀ batch failed tx flow, c.worker.phase ≠ .dispatching batch failed tx flow) :
    Worker.Tidies chunked c.worker.endpoint.name
      ((c.worker.step now c.world).worker.phase, (c.worker.step now c.world).world) := by
  have hphase := h.phase
  generalize hr : c.worker.step now c.world = r at hnew ⊢
  unfold Worker.step at hr
  split at hr
  case h_1 heq =>
    subst hr
    refine ⟨h.tidy, ?_⟩
    dsimp only
    split <;> trivial
  case h_2 heq =>
    repeat' split at hr
    all_goals
      subst hr
      refine ⟨h.tidy, ?_⟩
    all_goals first
      | trivial
      | next htake _ => exact List.forall_mem_singleton.mpr (hnew _ (mem_taken htake rfl))
      | next htake => exact (Worker.take_phase htake).symm ▸ hphase
  case h_3 batch deadline heq =>
    rw [heq] at hphase
    repeat' split at hr
    all_goals
      subst hr
      refine ⟨h.tidy, ?_⟩
    all_goals first
      | trivial
      | exact hphase
      | next htake =>
        refine List.forall_mem_append.mpr ⟨hphase, List.forall_mem_singleton.mpr ?_⟩
        exact hnew _ (mem_taken htake rfl)
      | next htake _ =>
        dsimp only
        rw [Worker.take_phase htake, heq]
        exact hphase
  case h_4 heq => exact absurd heq (hp _ _)
  case h_5 heq => exact absurd heq (hq _ _ _ _)
  case h_6 batch failed deadline heq =>
    rw [heq] at hphase
    repeat' split at hr
    all_goals
      subst hr
      refine ⟨h.tidy, ?_⟩
    all_goals first
      | trivial
      | exact hphase
      | dsimp only
        rw [heq]
        exact hphase
  all_goals
    subst hr
    exact ⟨h.tidy, hphase⟩

/-- A step of the worker. -/
theorem work (h : Tended chunked c) (now : Nat)
    (hd : ∀ m ∈ (c.work now).delivered, m.Uses chunked) : Tended chunked (c.work now) := by
  obtain ⟨he, hs⟩ := c.worker.step_fixed now c.world
  have hnew : ∀ m ∈ c.taken (c.worker.step now c.world).worker, m.Uses chunked :=
    fun m hm => hd m (List.mem_append_right _ hm)
  have hstep : Worker.Tidies chunked c.worker.endpoint.name
      ((c.worker.step now c.world).worker.phase, (c.worker.step now c.world).world) := by
    have hphase := h.phase
    cases hp : c.worker.phase with
    | attempting batch failed =>
      rw [hp] at hphase
      simp only [Worker.step, hp]
      exact Worker.begin_tidies h.secluded hphase h.tidy
    | dispatching batch failed tx flow =>
      rw [hp] at hphase
      simp only [Worker.step, hp]
      exact Worker.proceed_tidies hphase.1 h.tidy hphase.2.1 hphase.2.2
    | _ => exact h.idle now hnew (by simp [hp]) (by simp [hp])
  refine ⟨h.secluded.of_service hs, ?_, ?_⟩
  · change World.Tidy chunked (c.worker.step now c.world).worker.endpoint.name _
    rw [he]
    exact hstep.1
  · change Phase.Clear chunked (c.worker.step now c.world).worker.endpoint.name _ _
    rw [he]
    exact hstep.2

/-- Every step keeps the invariant. -/
theorem step (h : Tended chunked c) {c' : Course κ} (hs : Regular chunked c c') :
    Tended chunked c' := by
  obtain ⟨hs, hd⟩ := hs
  cases hs with
  | work now => exact h.work now hd
  | others hw =>
    refine ⟨h.secluded, h.tidy.undisturbed hw, ?_⟩
    have hphase := h.phase
    unfold Phase.Clear at hphase ⊢
    rw [hw.log, hw.chunks]
    exact hphase
  | cancel => exact ⟨h.secluded.of_service rfl, h.tidy, h.phase⟩
  | abandon => exact ⟨h.secluded.of_service rfl, h.tidy, h.phase⟩
  | renew stream => exact ⟨h.secluded.of_service rfl, h.tidy, trivial⟩

theorem steps (h : Tended chunked c) {c' : Course κ}
    (hs : Relation.ReflTransGen (Regular chunked) c c') : Tended chunked c' := by
  induction hs with
  | refl => exact h
  | tail _ hs ih => exact ih.step hs

end Tended

/-- **No orphaned chunks**, as long as every id is used in one way: with well-formed chunk headers,
or without. In every state that a consumer reaches which alone uses its log and its chunk store and
whose clean-ups succeed, no chunk is parked whose message is in the log. -/
theorem no_orphans {chunked : String → Prop} {w : Worker κ} (hw : w.Secluded) {world : World κ}
    (hempty : world.chunks.items = []) (hspared : world.Spares .chunksCleanup) {c : Course κ}
    (hc : Relation.ReflTransGen (Regular chunked) (start w world) c) :
    ∀ d ∈ c.world.chunks.items, c.entry d.messageId ∉ c.world.log.items := by
  have hstart : Tended chunked (start w world) := by
    refine ⟨hw.of_service rfl, ⟨?_, hspared⟩, trivial⟩
    intro d hd
    change d ∈ world.chunks.items at hd
    rw [hempty] at hd
    cases hd
  intro d hd
  exact ((hstart.steps hc).tidy.apart d hd).2

/-! ### A parked chunk and a message in one piece -/

/-- The first of two chunks of a message, and a message in one piece. -/
def halfAndPing (id : String) : List RawMessage :=
  [⟨[0x7B], ⟨[(Headers.messageId, id), (Headers.messageType, "ping"), (Headers.chunkIndex, "0"),
    (Headers.chunksCount, "2")]⟩, some "0"⟩, ping "a" "1"]

/-- The application of `pinged` with these messages. -/
def receiving (id : String) : Worker Unit :=
  { pinged with stream := ⟨"orders", halfAndPing id, 0, 0, false⟩ }

theorem receiving_secluded (id : String) : (receiving id).Secluded where
  pipeline := noted_pipeline 0
  publisher := noted_keeps (R := Scope.Undisturbed) (fun _ => ⟨rfl, rfl, fun h => h⟩) 0

/-- The consumer between two batches, when it has received both. -/
def received (id : String) : Course Unit :=
  Nat.iterate (Course.work 0) 9 (start (receiving id) emptyWorld)

/-- Only what was delivered in the end has to be looked at. -/
theorem regular_iterate {chunked : String → Prop} (c : Course κ) (now n : Nat)
    (h : ∀ m ∈ (Nat.iterate (Course.work now) n c).delivered, m.Uses chunked) :
    Relation.ReflTransGen (Regular chunked) c (Nat.iterate (Course.work now) n c) := by
  induction n with
  | zero => exact .refl
  | succ n ih =>
    rw [Function.iterate_succ_apply'] at h ⊢
    exact (ih fun m hm => h m (List.mem_append_left _ hm)).tail ⟨.work now _, h⟩

/-- Under different ids the chunk is parked and the message logged. -/
theorem no_orphans_other :
    (received "b").world.chunks.items = [⟨"b", 0, 2, [0x7B]⟩] ∧
      (received "b").world.log.items = [⟨"a", "orders"⟩] ∧
      ∀ d ∈ (received "b").world.chunks.items,
        (received "b").entry d.messageId ∉ (received "b").world.log.items := by
  refine ⟨rfl, rfl, ?_⟩
  have huses : ∀ m ∈ halfAndPing "b", m.Uses (· = "b") := by
    intro m hm id hid
    simp only [halfAndPing, List.mem_cons, List.not_mem_nil, or_false] at hm
    rcases hm with rfl | rfl
    · cases hid
      exact iff_of_true rfl rfl
    · cases hid
      exact iff_of_false (by decide) (by decide)
  have hspared : (emptyWorld.Spares .chunksCleanup) := fun f hf => by cases hf
  exact no_orphans (receiving_secluded "b") rfl hspared (regular_iterate _ 0 9 huses)

/-- Under one id the message is logged beside the chunk, though the stores were empty, nothing
fails and there are no custom stages. -/
theorem no_orphans_mixed :
    (receiving "a").Secluded ∧ emptyWorld.log.items = [] ∧ emptyWorld.chunks.items = [] ∧
      emptyWorld.rules = [] ∧
      Steps Undisturbed (start (receiving "a") emptyWorld) (received "a") ∧
      (received "a").worker.phase = .ready ∧
      ∃ d ∈ (received "a").world.chunks.items,
        (received "a").entry d.messageId ∈ (received "a").world.log.items :=
  ⟨receiving_secluded "a", rfl, rfl, rfl, steps_iterate _ 0 9, rfl,
    ⟨"a", 0, 2, [0x7B]⟩, List.mem_singleton_self _, List.mem_singleton_self _⟩

end Course

end

end Relay
