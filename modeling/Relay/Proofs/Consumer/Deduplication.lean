import Relay.Proofs.Consumer.Attempt
import Relay.Proofs.Consumer.Course
/-!
# Deduplication over whole runs

Whatever a consumer does, its log is only appended to, so that what is logged stays logged and
no envelope of it is handed on again. `Recording` is the invariant behind this: it says of the
attempt in progress that the ids it has handed on are new, and of those before it that what they
have recorded is in the log.
-/
namespace Relay

open World (Alike Aside Grows)

variable {κ : Type}

/-! ## Commits -/

namespace Transaction

variable {wire : Wire} {tx : Transaction κ}

theorem flush_grows (os : List Outgoing) : Within Grows (flush wire os : Op κ StoreError Unit) := by
  have haside : Within (Aside "") (flush wire os : Op κ StoreError Unit) := flush_aside wire os
  exact haside.mono fun _ _ h => h.grows

theorem logCommit_grows (s : LogSession) :
    Within Grows (discard s.commit : Op κ StoreError Unit) := by
  refine within_intro (fun _ w w' h => ?_) fun _ w w' h => ?_
  · obtain ⟨_, h⟩ := discard_ok.mp h
    obtain ⟨log, hlog, hw⟩ := LogSession.commit_ok h
    have hgrown : w.log.Grown log := .append hlog
    unfold Grows
    rwa [hw.log]
  · exact (LogSession.commit_error (discard_error.mp h)).grows

theorem chunksCommit_grows (s : ChunkSession) :
    Within Grows (discard s.commit : Op κ StoreError Unit) := by
  -- the chunks are not the log
  have hother : ∀ {w w' : World κ} {chunks : ChunkStore}, Alike { w with chunks } w' →
      Grows w w' := by
    intro w w' chunks hw
    unfold Grows
    rw [hw.log]
    exact .refl _
  refine within_intro (fun _ w w' h => ?_) fun _ w w' h => ?_
  · obtain ⟨_, h⟩ := discard_ok.mp h
    obtain ⟨chunks, -, hw⟩ := ChunkSession.commit_ok h
    exact hother hw
  · rcases ChunkSession.commit_error (discard_error.mp h) with hw | ⟨chunks, -, hw⟩
    · exact hw.grows
    · exact hother hw

theorem Tame.participants (h : tx.Tame) : ∀ r ∈ tx.participants wire, r.Harmless := by
  have hnothing : Within Grows (pure () : Op κ StoreError Unit) := within_pure ()
  intro r hr
  rcases List.mem_append.mp hr with hr | hr
  · simp only [List.mem_cons, List.not_mem_nil, or_false] at hr
    rcases hr with rfl | rfl | rfl
    · exact ⟨flush_grows _, hnothing⟩
    · exact ⟨logCommit_grows _, hnothing⟩
    · exact ⟨chunksCommit_grows _, hnothing⟩
  · exact h r hr

theorem commit_grows (h : tx.Tame) : Within Grows (tx.commit wire) :=
  Resource.commitAll_within h.participants

theorem rollback_grows (h : tx.Tame) : Within Grows (tx.rollback wire) :=
  Resource.rollbackAll_within fun r hr => (h.participants r hr).2

end Transaction

/-! ## Steps of the worker -/

/-- The log of a publish's world has only been appended to. -/
def Scope.Grows (s s' : Scope κ) : Prop := World.Grows s.world s'.world

instance : Std.Refl (Scope.Grows (κ := κ)) := ⟨fun s => Std.Refl.refl s.world⟩

instance : IsTrans (Scope κ) Scope.Grows :=
  ⟨fun s t u h h' => (IsTrans.trans s.world t.world u.world h h' : World.Grows _ _)⟩

/-- The consumer's custom stages and what its application publishes do nothing to the log but
append to it, and the stages keep to their place in the chain. -/
structure Worker.Guarded (w : Worker κ) : Prop where
  pipeline : ∃ custom, w.service.pipeline = .create w.service.wire custom ∧
    ∀ st ∈ custom, st.Discreet
  publisher : ∀ ms, (w.service.publisher.publish ms).Keeps Scope.Grows

theorem Worker.Guarded.orderly {w : Worker κ} (h : w.Guarded) :
    Pipeline.Orderly w.service.pipeline.stages ∧ .deduplication ∈ w.service.pipeline.stages := by
  obtain ⟨custom, hp, hc⟩ := h.pipeline
  rw [hp]
  exact Pipeline.create_orderly _ hc

theorem Worker.Guarded.of_service {w w' : Worker κ} (h : w.Guarded)
    (hs : w'.service = w.service) : w'.Guarded :=
  ⟨by rw [hs]; exact h.pipeline, by rw [hs]; exact h.publisher⟩

/-- What is left of an attempt in progress does nothing to the log but append to it. -/
def Phase.Harmless : Phase κ → Prop
  | .dispatching _ _ tx flow => tx.Tame ∧ flow.Keeps Scope.Grows
  | _ => True

/-- A part of an attempt does nothing to the log but append to it, and leaves nothing behind that
does. -/
def Worker.Appends (world : World κ) (r : Phase κ × World κ) : Prop :=
  Grows world r.2 ∧ r.1.Harmless

theorem Worker.Appends.of_grows {world u : World κ} {r : Phase κ × World κ}
    (hu : Grows world u) (h : Appends u r) : Appends world r :=
  ⟨IsTrans.trans _ _ _ hu h.1, h.2⟩

/-- However a batch is given up, the log is only appended to. -/
theorem Upshot.appends {endpoint : Endpoint} {batch : List RawMessage} {world : World κ}
    {r : Phase κ × World κ} (h : Upshot endpoint batch world r.1 r.2)
    (hr : ∀ b n tx flow, r.1 ≠ .dispatching b n tx flow) : Worker.Appends world r := by
  obtain ⟨p, w'⟩ := r
  dsimp only at h hr
  refine ⟨?_, ?_⟩
  · cases h with
    | closed h => exact h.grown
    | failed _ h => exact h.grown
    | panicked h => exact h.grown
    | again _ h => exact h.grown
    | later _ _ h => exact h.grown
    | dispatching _ h => exact h.grown
  · unfold Phase.Harmless
    split
    · next heq => exact absurd heq (hr _ _ _ _)
    · trivial

namespace Worker

variable {w : Worker κ} {now : Nat} {batch : List RawMessage} {failed : UInt32} {world : World κ}
  {tx : Transaction κ}

theorem finished_ne (x : Except String Unit) (b : List RawMessage) (n : UInt32)
    (flow : Work (Scope κ) Published) : finished x ≠ .dispatching b n tx flow := by
  cases x <;> simp [finished]

theorem giveWay_ne (e : InboundError) (b : List RawMessage) (n : UInt32)
    (flow : Work (Scope κ) Published) :
    (w.giveWay now batch failed e world).1 ≠ .dispatching b n tx flow := by
  unfold giveWay
  split
  · simp
  · dsimp only
    split
    · simp
    · split <;> simp
    · exact finished_ne _ _ _ _
    · exact finished_ne _ _ _ _
    · simp

theorem giveWay_appends (e : InboundError) :
    Appends world (w.giveWay now batch failed e world) :=
  (giveWay_upshot e).appends fun _ _ _ _ => giveWay_ne e _ _ _

theorem conclude_appends (h : tx.Tame) :
    Appends world (w.conclude now batch failed tx world) := by
  unfold conclude
  cases hc : tx.commit w.service.wire world with
  | error e u =>
    rw [Op.exec_error.mpr hc]
    exact .of_grows ((Transaction.commit_grows h).error hc) (giveWay_appends _)
  | ok _ u =>
    rw [Op.exec_ok.mpr hc]
    have hu : Grows world u := (Transaction.commit_grows h).ok hc
    dsimp only
    cases hk : Attempt.acknowledge w.endpoint batch u with
    | ok _ v =>
      rw [Op.exec_ok.mpr (Op.mapError_ok.mpr hk)]
      refine ⟨?_, trivial⟩
      unfold Grows at hu ⊢
      rwa [(Attempt.acknowledge_ok hk).1]
    | error e v =>
      rw [Op.exec_error.mpr (Op.mapError_error.mpr ⟨e, hk, rfl⟩)]
      exact ⟨IsTrans.trans _ _ _ hu (Attempt.acknowledge_error hk).grown, trivial⟩

theorem abort_appends (h : tx.Tame) (e : InboundError) :
    Appends world (w.abort now batch failed tx e world) := by
  unfold abort
  rw [Op.exec_world]
  exact .of_grows (Transaction.rollback_grows h world) (giveWay_appends e)

theorem begin_appends (hw : w.Guarded) : Appends world (w.begin now batch failed world) := by
  have hprepare : Within Advanced (Attempt.prepare w.service.pipeline w.endpoint batch) :=
    Attempt.prepare_advanced hw.orderly.1
  replace hprepare := hprepare ⟨{}, world⟩
  have hempty : Transaction.Tame ({} : Transaction κ) := by simp [Transaction.Tame]
  unfold begin
  unfold endState at hprepare
  generalize Attempt.prepare w.service.pipeline w.endpoint batch ⟨{}, world⟩ = r at hprepare ⊢
  cases r with
  | error e s => exact .of_grows hprepare.grows (abort_appends (hprepare.tame hempty) e)
  | ok ms s =>
    cases ms with
    | nil => exact .of_grows hprepare.grows (conclude_appends (hprepare.tame hempty))
    | cons m ms => exact ⟨hprepare.grows, hprepare.tame hempty, hw.publisher _⟩

theorem proceed_appends {flow : Work (Scope κ) Published} (h : tx.Tame)
    (hf : flow.Keeps Scope.Grows) :
    Appends world ((w.proceed now batch failed tx flow world).1,
      (w.proceed now batch failed tx flow world).2.1) := by
  obtain ⟨hworld, hk⟩ := hf.poll now ⟨world, some tx.outbox⟩
  unfold proceed
  generalize flow.poll now ⟨world, some tx.outbox⟩ = r at hworld hk ⊢
  obtain ⟨flow', s⟩ := r
  change Grows world s.world at hworld
  dsimp only at hk ⊢
  have ht : Transaction.Tame { tx with outbox := s.outbox.getD [] } := h
  split
  · exact .of_grows hworld (conclude_appends ht)
  · exact .of_grows hworld (abort_appends ht _)
  · exact ⟨hworld, trivial⟩
  · exact ⟨hworld, ht, hk⟩

theorem take_phase {w' : Worker κ} {i : Option Item} (h : w.take world = (i, w')) :
    w'.phase = w.phase := by
  cases h
  rfl

/-- **A step of the worker does nothing to the log but append to it.** -/
theorem step_appends (hw : w.Guarded) (hp : w.phase.Harmless) :
    Appends world ((w.step now world).worker.phase, (w.step now world).world) := by
  unfold step
  split
  case h_4 batch failed hphase => exact begin_appends hw
  case h_5 batch failed tx flow hphase =>
    rw [hphase] at hp
    exact proceed_appends hp.1 hp.2
  all_goals
    refine ⟨?_, ?_⟩
    · repeat' split
      all_goals exact Std.Refl.refl world
    · repeat' split
      all_goals first
        | trivial
        | rw [take_phase ‹w.take world = _›]; exact hp

end Worker

/-! ## Runs -/

namespace Course

/-- The ids that the attempt in progress has handed on are new to the record, no id was recorded
twice, and what was recorded is in the log. -/
structure Recording (c : Course κ) : Prop where
  guarded : c.worker.Guarded
  phase : c.worker.phase.Harmless
  handing : c.handing.Nodup
  new : ∀ id ∈ c.handing, id ∉ c.recorded
  recorded : c.recorded.Nodup
  logged : ∀ id ∈ c.recorded, c.entry id ∈ c.world.log.items

theorem recording_start {w : Worker κ} (h : w.Guarded) (world : World κ) :
    Recording (start w world) where
  guarded := h.of_service rfl
  phase := trivial
  handing := List.nodup_nil
  new := by simp [start]
  recorded := List.nodup_nil
  logged := by simp [start]

/-- What an attempt hands on is new to the log. -/
theorem hands_new {c : Course κ} (h : c.worker.Guarded) (batch : List RawMessage) :
    (c.hands batch).Nodup ∧ ∀ id ∈ c.hands batch, c.entry id ∉ c.world.log.items := by
  unfold hands
  split
  · next out s hp =>
    obtain ⟨hnodup, hnew⟩ := Attempt.prepare_new h.orderly.1 h.orderly.2 hp
    refine ⟨hnodup, fun id hid hin => hnew id hid ?_⟩
    exact List.mem_append_left _ hin
  · exact ⟨List.nodup_nil, by simp⟩

namespace Recording

variable {c : Course κ}

theorem handingIn (h : Recording c) (p : Phase κ) :
    (c.handingIn p).Nodup ∧ ∀ id ∈ c.handingIn p, id ∉ c.recorded := by
  unfold Course.handingIn
  split
  · split
    · next batch _ _ =>
      obtain ⟨hnodup, hnew⟩ := hands_new h.guarded batch
      exact ⟨hnodup, fun id hid hin => hnew id hid (h.logged id hin)⟩
    · exact ⟨h.handing, h.new⟩
  · exact ⟨List.nodup_nil, by simp⟩

theorem recordedIn (h : Recording c) {log : InboundLog} (hlog : c.world.log.Grown log)
    (p : Phase κ) :
    (c.recordedIn log p).Nodup ∧ ∀ id ∈ c.recordedIn log p, c.entry id ∈ log.items := by
  have hold : ∀ id ∈ c.recorded, c.entry id ∈ log.items :=
    fun id hid => hlog.subset (h.logged id hid)
  unfold Course.recordedIn
  split
  · exact ⟨h.recorded, hold⟩
  · refine ⟨?_, ?_⟩
    · refine List.nodup_append'.mpr ⟨h.recorded, h.handing.filter _, ?_⟩
      intro id hid hf
      exact h.new id (List.mem_filter.mp hf).1 hid
    · intro id hid
      rcases List.mem_append.mp hid with hid | hid
      · exact hold id hid
      · exact List.contains_iff_mem.mp (List.mem_filter.mp hid).2

/-- While an attempt is in progress it keeps what it has handed on. -/
theorem disjoint (h : Recording c) (log : InboundLog) (p : Phase κ) :
    ∀ id ∈ c.handingIn p, id ∉ c.recordedIn log p := by
  intro id hid
  have hnew := (h.handingIn p).2 id hid
  unfold Course.handingIn at hid
  unfold Course.recordedIn
  split at hid
  · exact hnew
  · cases hid

theorem work (h : Recording c) (now : Nat) :
    Recording (c.work now) ∧ Grows c.world (c.work now).world := by
  obtain ⟨he, hs⟩ := c.worker.step_fixed now c.world
  have hstep : Worker.Appends c.world ((c.worker.step now c.world).worker.phase,
      (c.worker.step now c.world).world) := Worker.step_appends h.guarded h.phase
  obtain ⟨hgrows, hphase⟩ := hstep
  obtain ⟨hnodup, hlogged⟩ := h.recordedIn hgrows (c.worker.step now c.world).worker.phase
  refine ⟨⟨h.guarded.of_service hs, hphase, (h.handingIn _).1, h.disjoint _ _, hnodup, ?_⟩,
    hgrows⟩
  intro id hid
  have hin := hlogged id hid
  unfold entry at hin ⊢
  rw [← he] at hin
  exact hin

/-- Every step keeps the invariant and does nothing to the log but append to it. -/
theorem step (h : Recording c) {c' : Course κ} (hs : Step Grows c c') :
    Recording c' ∧ Grows c.world c'.world := by
  cases hs with
  | work now => exact h.work now
  | others hw =>
    refine ⟨⟨h.guarded, h.phase, h.handing, h.new, h.recorded, fun id hid => ?_⟩, hw⟩
    exact hw.subset (h.logged id hid)
  | cancel =>
    exact ⟨⟨h.guarded.of_service rfl, h.phase, h.handing, h.new, h.recorded, h.logged⟩,
      Std.Refl.refl c.world⟩
  | abandon =>
    exact ⟨⟨h.guarded.of_service rfl, h.phase, h.handing, h.new, h.recorded, h.logged⟩,
      Std.Refl.refl c.world⟩
  | renew stream =>
    exact ⟨⟨h.guarded.of_service rfl, trivial, List.nodup_nil, by simp [renew], h.recorded,
      h.logged⟩, Std.Refl.refl c.world⟩

theorem steps (h : Recording c) {c' : Course κ} (hs : Steps Grows c c') :
    Recording c' ∧ Grows c.world c'.world ∧ c'.worker.endpoint = c.worker.endpoint := by
  induction hs with
  | refl => exact ⟨h, Std.Refl.refl c.world, rfl⟩
  | tail _ hs ih =>
    obtain ⟨hr, hg, he⟩ := ih
    obtain ⟨hr', hg'⟩ := hr.step hs
    exact ⟨hr', IsTrans.trans _ _ _ hg hg', hs.fixed.1.trans he⟩

end Recording

/-- **Deduplication over whole runs.** Once a message is in the log, no attempt from then on hands
an envelope of it to the publisher; no id is handed on and in the log thereafter at more than one
attempt; and a log without repetitions gets none. -/
theorem handed_once {w : Worker κ} (hw : w.Guarded) (world : World κ) {c c' : Course κ}
    (hc : Steps Grows (start w world) c) (hc' : Steps Grows c c') :
    (∀ id, c.entry id ∈ c.world.log.items → ∀ batch, id ∉ c'.hands batch) ∧
      c'.recorded.Nodup ∧ (world.log.items.Nodup → c'.world.log.items.Nodup) := by
  obtain ⟨h, hg, -⟩ := (recording_start hw world).steps hc
  obtain ⟨h', hg', he⟩ := h.steps hc'
  refine ⟨fun id hid batch hin => ?_, h'.recorded, fun hn => hg'.nodup (hg.nodup hn)⟩
  have hlater : c'.entry id ∈ c'.world.log.items := by
    unfold entry at hid ⊢
    rw [he]
    exact hg'.subset hid
  exact (hands_new h'.guarded batch).2 id hin hlater

/-! ### A message delivered twice -/

/-- A consumer that is delivered a message twice. -/
def pinged : Worker Unit where
  endpoint := ⟨"orders", none, []⟩
  settings := {}
  service := noted 0
  stream := ⟨"orders", [ping "a" "0", ping "a" "1"], 0, 0, false⟩

theorem pinged_guarded : pinged.Guarded where
  pipeline := ⟨[], noted_pipeline 0, by simp⟩
  publisher := noted_keeps (fun s => InboundLog.Grown.refl s.world.log) 0

/-- The consumer after so many steps. -/
def pingedAfter (n : Nat) : Course Unit := Nat.iterate (work 0) n (start pinged emptyWorld)

/-- The message is handed on, logged and recorded by the fifth step, and at its second delivery,
taken up by the eighth, it is not handed on. -/
theorem handed_once_pinged :
    (pingedAfter 4).handing = ["a"] ∧ (pingedAfter 5).entry "a" ∈ (pingedAfter 5).world.log.items ∧
      (pingedAfter 8).recorded = ["a"] ∧ "a" ∉ (pingedAfter 8).hands [ping "a" "1"] ∧
      (pingedAfter 8).world.log.items.Nodup := by
  have hlogged : (pingedAfter 5).entry "a" ∈ (pingedAfter 5).world.log.items :=
    List.mem_singleton_self _
  have hsteps : Steps Grows (pingedAfter 5) (pingedAfter 8) := steps_iterate _ 0 3
  obtain ⟨hnot, -, hnodup⟩ :=
    handed_once pinged_guarded emptyWorld (steps_iterate _ 0 5) hsteps
  exact ⟨rfl, hlogged, rfl, hnot "a" hlogged _, hnodup List.nodup_nil⟩

end Course

end Relay
