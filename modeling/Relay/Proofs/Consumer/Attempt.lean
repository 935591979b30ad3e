import Relay.Consumer.Worker
import Relay.Proofs.Accounting
import Relay.Proofs.Flow
/-!
# How attempts end

`Upshot` says everything that an attempt at a batch, or a part of one, can come to: the batch is
closed, that is accounted for and acknowledged; the worker ends; the batch is kept for a further
attempt; or a publish has begun or goes on. Whichever it is, no account is lost. The three ways
in which a batch is closed, a commit, a skip and a move, all go through `closed_of_commit`.
-/
namespace Relay

open World (Alike Aside Kept)

variable {κ : Type}

/-- Every message of the batch is accounted for and its offset acknowledged, and no account is
lost. -/
structure Closed (endpoint : Endpoint) (ms : List RawMessage) (w w' : World κ) : Prop where
  grown : w.log.Grown w'.log
  covers : Covers endpoint.name w.log.items w.chunks.items w'.log.items w'.chunks.items
  accounted : ∀ m ∈ ms, Accounted endpoint.name w'.log.items w'.chunks.items m
  acknowledged : ∀ o, o ∈ (w'.transport.topic endpoint.name).acknowledged ↔
    o ∈ (w.transport.topic endpoint.name).acknowledged ∨ o ∈ Attempt.offsets ms

theorem Closed.of_kept {endpoint : Endpoint} {ms : List RawMessage} {w u w' : World κ}
    (h : Kept endpoint.name w u) (h' : Closed endpoint ms u w') : Closed endpoint ms w w' :=
  ⟨h.grown.trans h'.grown, h.covers.trans h'.covers, h'.accounted,
    by simpa only [h.acknowledged] using h'.acknowledged⟩

namespace Attempt

variable {endpoint : Endpoint} {ms : List RawMessage} {w w' : World κ}

theorem acknowledge_ok (h : acknowledge endpoint ms w = .ok () w') :
    w'.log = w.log ∧ w'.chunks = w.chunks ∧
      ∀ o, o ∈ (w'.transport.topic endpoint.name).acknowledged ↔
        o ∈ (w.transport.topic endpoint.name).acknowledged ∨ o ∈ offsets ms := by
  unfold acknowledge at h
  split at h
  · next he =>
    cases h
    rw [List.isEmpty_iff.mp he]
    simp
  · exact World.acknowledge_ok h

theorem acknowledge_error {e : TransportError} (h : acknowledge endpoint ms w = .error e w') :
    Kept endpoint.name w w' := by
  unfold acknowledge at h
  split at h
  · cases h
  · exact (World.acknowledge_error h).aside.kept

/-- A batch that is committed and acknowledged is closed. -/
theorem closed_of_commit {wire : Wire} {tx : Transaction κ} {u : World κ}
    (hs : tx.Sound endpoint.name) (ha : ∀ m ∈ ms, tx.Accounts endpoint.name w.log w.chunks m)
    (hc : tx.commit wire w = .ok () u) (hk : acknowledge endpoint ms u = .ok () w') :
    Closed endpoint ms w w' := by
  obtain ⟨hgrown, hcov, hack⟩ := Transaction.commit_ok_covers hs hc
  obtain ⟨hlog, hchunks, hacked⟩ := acknowledge_ok hk
  rw [← hlog, ← hchunks] at hcov
  rw [← hlog] at hgrown
  exact ⟨hgrown, (hs.view_covers w.log w.chunks).trans hcov, fun m hm => (ha m hm).mono hcov,
    by simpa only [hack] using hacked⟩

/-- An operation that closes the batch where it succeeds and loses no account where it fails. -/
def Closes (endpoint : Endpoint) (ms : List RawMessage) (x : Op κ String Unit) : Prop :=
  ∀ w, (∀ w', x w = .ok () w' → Closed endpoint ms w w') ∧
    ∀ e w', x w = .error e w' → Kept endpoint.name w w'

/-- The commit of what was taken in of a batch, and its acknowledgement. -/
theorem finish_closes {wire : Wire} {tx : Transaction κ} (hs : tx.Sound endpoint.name)
    (ha : ∀ m ∈ ms, tx.Accounts endpoint.name w.log w.chunks m) :
    let x : Op κ String Unit := (tx.commit wire).mapError StoreError.message >>= fun _ =>
      (acknowledge endpoint ms).mapError TransportError.message
    (∀ w', x w = .ok () w' → Closed endpoint ms w w') ∧
      ∀ e w', x w = .error e w' → Kept endpoint.name w w' := by
  refine ⟨?_, ?_⟩
  · intro w' h
    obtain ⟨_, u, hc, hk⟩ := bind_ok h
    exact closed_of_commit hs ha (Op.mapError_ok.mp hc) (Op.mapError_ok.mp hk)
  · intro e w' h
    rcases bind_error h with hc | ⟨_, u, hc, hk⟩
    · obtain ⟨_, hc, -⟩ := Op.mapError_error.mp hc
      exact (Transaction.commit_kept hs).error hc
    · obtain ⟨_, hk, -⟩ := Op.mapError_error.mp hk
      exact IsTrans.trans _ _ _ ((Transaction.commit_kept hs).ok (Op.mapError_ok.mp hc))
        (acknowledge_error hk)

/-- What a settled batch leaves to be committed. -/
theorem batch_spec {wire : Wire} {settled : List RawMessage} {tx : Transaction κ}
    (h : Settlement.batch wire endpoint ms w = .ok (settled, tx) w') :
    Alike w w' ∧ tx.Sound endpoint.name ∧
      ∀ m ∈ ms, tx.Accounts endpoint.name w'.log w'.chunks m := by
  obtain ⟨htaken, hw⟩ := Settlement.many_ok (Settlement.batch_ok.mp h)
  refine ⟨hw, htaken.sound (Transaction.sound_empty _), ?_⟩
  rw [hw.log, hw.chunks]
  exact htaken.accounts

/-- A batch that could not be settled is rolled back. -/
theorem batch_aside {name : String} {wire : Wire} {e : InboundError}
    (h : Settlement.batch wire endpoint ms w = .error e w') : Aside name w w' := by
  unfold Settlement.batch at h
  cases hm : Settlement.many endpoint ms ⟨{}, w⟩ with
  | ok settled t => rw [hm] at h; cases h
  | error f t =>
    rw [hm] at h
    obtain ⟨-, hw, hr⟩ := Settlement.many_error hm
    injection h with _ hw'
    rw [← hw', Op.exec_world]
    have hroll : Within (Aside name) (t.transaction.rollback wire) := Transaction.rollback_aside hr
    exact IsTrans.trans _ _ _ hw.aside (hroll t.world)

theorem skip_closes (s : Service κ) : Closes endpoint ms (skip s endpoint ms) := by
  intro w
  refine ⟨?_, ?_⟩
  · intro w' h
    obtain ⟨⟨settled, tx⟩, u, hb, h1⟩ := bind_ok h
    obtain ⟨hw, hs, ha⟩ := batch_spec (Op.mapError_ok.mp hb)
    exact .of_kept hw.aside.kept ((finish_closes hs ha).1 w' h1)
  · intro e w' h
    rcases bind_error h with hb | ⟨⟨settled, tx⟩, u, hb, h1⟩
    · obtain ⟨_, hb, -⟩ := Op.mapError_error.mp hb
      exact (batch_aside hb).kept
    · obtain ⟨hw, hs, ha⟩ := batch_spec (Op.mapError_ok.mp hb)
      exact IsTrans.trans _ _ _ hw.aside.kept ((finish_closes hs ha).2 e w' h1)

theorem move_closes (s : Service κ) (target : Endpoint) (failed : UInt32) :
    Closes endpoint ms (move s endpoint target failed ms) := by
  intro w
  have hmove : ∀ settled, Within (Aside endpoint.name)
      ((Settlement.move endpoint target failed settled).attempt : Op κ String _) :=
    fun settled => Op.within_attempt (Settlement.move_aside endpoint target failed settled)
  refine ⟨?_, ?_⟩
  · intro w' h
    obtain ⟨⟨settled, tx⟩, u, hb, h1⟩ := bind_ok h
    obtain ⟨hw, hs, ha⟩ := batch_spec (Op.mapError_ok.mp hb)
    obtain ⟨_, v, hp, h2⟩ := bind_ok h1
    obtain ⟨o, x, hm, h3⟩ := bind_ok h2
    have hx : Aside endpoint.name u x :=
      IsTrans.trans _ _ _ ((World.useProducer_aside s.broker target).ok hp) ((hmove settled).ok hm)
    cases o with
    | error e =>
      obtain ⟨_, _, _, h4⟩ := bind_ok h3
      cases h4
    | ok _ =>
      rw [← hx.log, ← hx.chunks] at ha
      exact .of_kept (IsTrans.trans _ _ _ hw.aside.kept hx.kept) ((finish_closes hs ha).1 w' h3)
  · intro e w' h
    rcases bind_error h with hb | ⟨⟨settled, tx⟩, u, hb, h1⟩
    · obtain ⟨_, hb, -⟩ := Op.mapError_error.mp hb
      exact (batch_aside hb).kept
    obtain ⟨hw, hs, ha⟩ := batch_spec (Op.mapError_ok.mp hb)
    rcases bind_error h1 with hp | ⟨_, v, hp, h2⟩
    · cases hp
    rcases bind_error h2 with hm | ⟨o, x, hm, h3⟩
    · rw [Op.attempt_eq] at hm
      cases hm
    have hx : Aside endpoint.name u x :=
      IsTrans.trans _ _ _ ((World.useProducer_aside s.broker target).ok hp) ((hmove settled).ok hm)
    have hwx : Kept endpoint.name w x := IsTrans.trans _ _ _ hw.aside.kept hx.kept
    cases o with
    | error f =>
      rcases bind_error h3 with hr | ⟨_, y, hr, h4⟩
      · rw [Op.attempt_eq] at hr
        cases hr
      · cases h4
        have hroll : Within (Aside endpoint.name) (tx.rollback s.wire) :=
          Transaction.rollback_aside hs.resources
        exact IsTrans.trans _ _ _ hwx ((Op.within_attempt hroll).ok hr).kept
    | ok _ =>
      rw [← hx.log, ← hx.chunks] at ha
      exact IsTrans.trans _ _ _ hwx ((finish_closes hs ha).2 e w' h3)

end Attempt

/-! ## Attempts -/

/-- The scope of a publish has changed aside of a consumer of the topic. -/
def Scope.Aside (name : String) (s s' : Scope κ) : Prop := World.Aside name s.world s'.world

instance (name : String) : Std.Refl (Scope.Aside (κ := κ) name) := ⟨fun s => Std.Refl.refl s.world⟩

instance (name : String) : IsTrans (Scope κ) (Scope.Aside name) :=
  ⟨fun s t u h h' => (IsTrans.trans s.world t.world u.world h h' : World.Aside name _ _)⟩

/-- Everything that processing a batch for a while can come to. -/
inductive Upshot (endpoint : Endpoint) (batch : List RawMessage) (w : World κ) :
    Phase κ → World κ → Prop
  | closed {w' : World κ} (h : Closed endpoint batch w w') : Upshot endpoint batch w .ready w'
  | failed {w' : World κ} (reason : String) (h : Kept endpoint.name w w') :
    Upshot endpoint batch w (.failed reason) w'
  | panicked {w' : World κ} (h : Kept endpoint.name w w') : Upshot endpoint batch w .panicked w'
  | again {w' : World κ} (failed : UInt32) (h : Kept endpoint.name w w') :
    Upshot endpoint batch w (.attempting (Attempt.marked failed batch) failed) w'
  | later {w' : World κ} (failed : UInt32) (deadline : Nat) (h : Kept endpoint.name w w') :
    Upshot endpoint batch w (.pausing (Attempt.marked failed batch) failed deadline) w'
  | dispatching {w' : World κ} {tx : Transaction κ} {flow : Work (Scope κ) Published}
    (failed : UInt32) (h : Kept endpoint.name w w') (hs : tx.Sound endpoint.name)
    (ha : ∀ m ∈ batch, tx.Accounts endpoint.name w'.log w'.chunks m)
    (hf : flow.Keeps (Scope.Aside endpoint.name)) :
    Upshot endpoint batch w (.dispatching batch failed tx flow) w'

theorem Upshot.of_kept {endpoint : Endpoint} {batch : List RawMessage} {w u w' : World κ}
    {p : Phase κ} (hw : Kept endpoint.name w u) (h : Upshot endpoint batch u p w') :
    Upshot endpoint batch w p w' := by
  have ht : ∀ {v : World κ}, Kept endpoint.name u v → Kept endpoint.name w v :=
    fun h => IsTrans.trans _ _ _ hw h
  cases h with
  | closed h => exact .closed (.of_kept hw h)
  | failed r h => exact .failed r (ht h)
  | panicked h => exact .panicked (ht h)
  | again n h => exact .again n (ht h)
  | later n d h => exact .later n d (ht h)
  | dispatching n h hs ha hf => exact .dispatching n (ht h) hs ha hf

/-- The consumer has no custom stages, and what its application publishes leaves the stores of the
consumer and the acknowledgements on its topic alone. -/
structure Worker.Alone (w : Worker κ) : Prop where
  pipeline : w.service.pipeline = .create w.service.wire []
  publisher : ∀ ms, (w.service.publisher.publish ms).Keeps (Scope.Aside w.endpoint.name)

namespace Worker

variable {w : Worker κ} {now : Nat} {batch : List RawMessage} {failed : UInt32} {world : World κ}

theorem finished_upshot {x : Op κ String Unit} (h : Attempt.Closes w.endpoint batch x) :
    Upshot w.endpoint batch world (finished (x.exec world).1) (x.exec world).2 := by
  cases hx : x world with
  | ok _ world' =>
    rw [Op.exec_ok.mpr hx]
    exact .closed ((h world).1 world' hx)
  | error e world' =>
    rw [Op.exec_error.mpr hx]
    exact .failed e ((h world).2 e world' hx)

theorem giveWay_upshot (e : InboundError) :
    Upshot w.endpoint batch world (w.giveWay now batch failed e world).1
      (w.giveWay now batch failed e world).2 := by
  unfold giveWay
  split
  · exact .failed _ (Std.Refl.refl world)
  · dsimp only
    split
    · exact .panicked (Std.Refl.refl world)
    · split
      · exact .again _ (Std.Refl.refl world)
      · exact .later _ _ (Std.Refl.refl world)
    · exact finished_upshot (Attempt.skip_closes w.service)
    · exact finished_upshot (Attempt.move_closes w.service _ _)
    · exact .failed _ (Std.Refl.refl world)

theorem conclude_upshot {tx : Transaction κ} (hs : tx.Sound w.endpoint.name)
    (ha : ∀ m ∈ batch, tx.Accounts w.endpoint.name world.log world.chunks m) :
    Upshot w.endpoint batch world (w.conclude now batch failed tx world).1
      (w.conclude now batch failed tx world).2 := by
  unfold conclude
  cases hc : tx.commit w.service.wire world with
  | error e u =>
    rw [Op.exec_error.mpr hc]
    exact .of_kept ((Transaction.commit_kept hs).error hc) (giveWay_upshot _)
  | ok _ u =>
    rw [Op.exec_ok.mpr hc]
    dsimp only
    cases hk : Attempt.acknowledge w.endpoint batch u with
    | ok _ v =>
      rw [Op.exec_ok.mpr (Op.mapError_ok.mpr hk)]
      exact .closed (Attempt.closed_of_commit hs ha hc hk)
    | error e v =>
      rw [Op.exec_error.mpr (Op.mapError_error.mpr ⟨e, hk, rfl⟩)]
      exact .failed _ (IsTrans.trans _ _ _ ((Transaction.commit_kept hs).ok hc)
        (Attempt.acknowledge_error hk))

theorem abort_upshot {tx : Transaction κ} (hr : tx.resources = []) (e : InboundError) :
    Upshot w.endpoint batch world (w.abort now batch failed tx e world).1
      (w.abort now batch failed tx e world).2 := by
  have hroll : Within (Aside w.endpoint.name) (tx.rollback w.service.wire) :=
    Transaction.rollback_aside hr
  unfold abort
  rw [Op.exec_world]
  exact .of_kept (hroll world).kept (giveWay_upshot e)

/-- What the start of an attempt can come to. -/
theorem begin_upshot (hw : w.Alone) :
    Upshot w.endpoint batch world (w.begin now batch failed world).1
      (w.begin now batch failed world).2 := by
  unfold begin
  rw [hw.pipeline]
  cases hp : Attempt.prepare (.create w.service.wire []) w.endpoint batch ⟨{}, world⟩ with
  | error e s =>
    obtain ⟨hs, hr⟩ := Attempt.prepare_error hp
    exact .of_kept hs.aside.kept (abort_upshot hr e)
  | ok ms s =>
    obtain ⟨htaken, hs⟩ := Attempt.prepare_ok hp
    have hsound := htaken.sound (Transaction.sound_empty _)
    have ha : ∀ m ∈ batch, s.transaction.Accounts w.endpoint.name s.world.log s.world.chunks m := by
      rw [hs.log, hs.chunks]
      exact htaken.accounts
    cases ms with
    | nil => exact .of_kept hs.aside.kept (conclude_upshot hsound ha)
    | cons m ms => exact .dispatching _ hs.aside.kept hsound ha (hw.publisher _)

/-- What a further part of the publish of an attempt can come to. -/
theorem proceed_upshot {tx : Transaction κ} {flow : Work (Scope κ) Published}
    (hs : tx.Sound w.endpoint.name)
    (ha : ∀ m ∈ batch, tx.Accounts w.endpoint.name world.log world.chunks m)
    (hf : flow.Keeps (Scope.Aside w.endpoint.name)) :
    Upshot w.endpoint batch world (w.proceed now batch failed tx flow world).1
      (w.proceed now batch failed tx flow world).2.1 := by
  obtain ⟨hworld, hk⟩ := hf.poll now ⟨world, some tx.outbox⟩
  unfold proceed
  generalize flow.poll now ⟨world, some tx.outbox⟩ = r at hworld hk ⊢
  obtain ⟨flow', s⟩ := r
  change Aside w.endpoint.name world s.world at hworld
  dsimp only at hk ⊢
  -- only the outbox of the transaction has changed
  have hs' : Transaction.Sound w.endpoint.name { tx with outbox := s.outbox.getD [] } :=
    ⟨hs.resources, hs.cleaned⟩
  have ha' : ∀ m ∈ batch, Transaction.Accounts { tx with outbox := s.outbox.getD [] }
      w.endpoint.name s.world.log s.world.chunks m := by
    rw [hworld.log, hworld.chunks]
    exact ha
  split
  · exact .of_kept hworld.kept (conclude_upshot hs' ha')
  · exact .of_kept hworld.kept (abort_upshot hs'.resources _)
  · exact .panicked hworld.kept
  · exact .dispatching _ hworld.kept hs' ha' hk

end Worker

end Relay
