import Relay.Proofs.Accounting
/-!
# Stores that do not fail

With the stores in memory and no failures in store, no look-up and no write is refused: whatever
stops a message in the pipeline comes of the message (`Pipeline.process_frank`), and a
transaction without outgoing messages commits (`Transaction.commit_assured`).
-/
namespace Relay

variable {κ ε δ α β : Type}

/-- The stores are in memory, and no failure is in store. -/
structure World.Reliable (w : World κ) : Prop where
  log : ∃ es, w.log = .memory es
  chunks : ∃ cs, w.chunks = .memory cs
  rules : w.rules = []

theorem World.Alike.reliable {w w' : World κ} (h : Alike w w') (hw : w.Reliable) : w'.Reliable := by
  refine ⟨h.log ▸ hw.log, h.chunks ▸ hw.chunks, ?_⟩
  rw [h.lasting fun site key => by rw [hw.rules]; rfl]
  exact hw.rules

/-! ## Operations that succeed -/

namespace Op

/-- With reliable stores the operation succeeds, and they stay reliable. -/
def Assured (o : Op κ ε α) : Prop :=
  ∀ w, w.Reliable → Ensures o w (fun _ w' => w'.Reliable) fun _ => False

theorem assured_pure (a : α) : Assured (pure a : Op κ ε α) := fun _ hw => hw

theorem Assured.exists_ok {o : Op κ ε α} (ho : Assured o) {w : World κ} (hw : w.Reliable) :
    ∃ a w', o w = .ok a w' ∧ w'.Reliable := by
  cases h : o w with
  | ok a w' => exact ⟨a, w', rfl, (ho w hw).ok h⟩
  | error e w' => exact ((ho w hw).error h).elim

theorem Assured.bind {o : Op κ ε α} {f : α → Op κ ε β} (ho : Assured o)
    (hf : ∀ a, Assured (f a)) : Assured (o >>= f) :=
  fun w hw => (ho w hw).bind fun a w' hw' => hf a w' hw'

theorem Assured.mapError {f : ε → δ} {o : Op κ ε α} (ho : Assured o) : Assured (o.mapError f) := by
  intro w hw
  refine ensures_intro ?_ ?_
  · intro a w' h
    exact (ho w hw).ok (mapError_ok.mp h)
  · intro d w' h
    obtain ⟨e, he, -⟩ := mapError_error.mp h
    exact (ho w hw).error he

/-- An operation that goes by what is in the stores. -/
theorem assured_get {f : World κ → Op κ ε α} (h : ∀ w : World κ, w.Reliable →
    Ensures (f w) w (fun _ w' => w'.Reliable) fun _ => False) : Assured (get >>= f) := h

end Op

namespace World

open Op

/-- Without failures in store a call to a store goes through. -/
theorem guardStore_pass {w : World κ} (hr : w.rules = []) (site : Site) (key : String) :
    (guardStore site key : Op κ StoreError Unit) w = .ok () w := by
  have hpass : strike site key w.rules = (.pass, w.rules) := by rw [hr]; rfl
  unfold guardStore decide
  simp only [bind, EStateM.bind, hpass]
  rfl

theorem guardStore_assured (site : Site) (key : String) :
    Assured (guardStore site key : Op κ StoreError Unit) := by
  intro w hw
  have hok : guardStore site key w = .ok () w := guardStore_pass hw.rules site key
  exact ensures_intro (fun _ _ h => by rw [hok] at h; cases h; exact hw)
    fun _ _ h => by rw [hok] at h; cases h

theorem logContains_assured (id endpoint : String) :
    Assured (logContains id endpoint : Op κ StoreError Bool) := by
  refine (guardStore_assured _ _).bind fun _ => assured_get fun w hw => ?_
  obtain ⟨es, hes⟩ := hw.log
  rw [hes]
  exact hw

theorem getChunks_assured (id : String) :
    Assured (getChunks id : Op κ StoreError (List Chunk)) := by
  refine (guardStore_assured _ _).bind fun _ => assured_get fun w hw => ?_
  obtain ⟨cs, hcs⟩ := hw.chunks
  rw [hcs]
  exact hw

theorem record_assured (e : Entry κ) : Assured (record e : Op κ ε Unit) :=
  fun _ hw => ⟨hw.log, hw.chunks, hw.rules⟩

theorem logAppend_assured (es : List LogEntry) :
    Assured (logAppend es : Op κ StoreError Unit) := by
  refine (guardStore_assured _ _).bind fun _ => (record_assured _).bind fun _ =>
    assured_get fun w hw => ?_
  obtain ⟨old, hold⟩ := hw.log
  rw [hold]
  exact ⟨⟨_, rfl⟩, hw.chunks, hw.rules⟩

theorem storeChunks_assured (cs : List Chunk) :
    Assured (storeChunks cs : Op κ StoreError Unit) := by
  refine (guardStore_assured _ _).bind fun _ => assured_get fun w hw => ?_
  obtain ⟨old, hold⟩ := hw.chunks
  rw [hold]
  exact ⟨hw.log, ⟨_, rfl⟩, hw.rules⟩

theorem cleanChunks_assured (ids : List String) :
    Assured (cleanChunks ids : Op κ StoreError Unit) := by
  refine (guardStore_assured _ _).bind fun _ => (record_assured _).bind fun _ =>
    assured_get fun w hw => ?_
  obtain ⟨old, hold⟩ := hw.chunks
  rw [hold]
  exact ⟨hw.log, ⟨_, rfl⟩, hw.rules⟩

end World

theorem LogSession.contains_assured (s : LogSession) (id endpoint : String) :
    Op.Assured (s.contains id endpoint : Op κ StoreError Bool) := by
  unfold contains
  split
  · exact Op.assured_pure _
  · exact World.logContains_assured _ _

theorem LogSession.commit_assured (s : LogSession) :
    Op.Assured (s.commit : Op κ StoreError LogSession) := by
  unfold commit
  split
  · exact Op.assured_pure _
  · exact (World.logAppend_assured _).bind fun _ => Op.assured_pure _

theorem ChunkSession.get_assured (s : ChunkSession) (id : String) :
    Op.Assured (s.get id : Op κ StoreError (List Chunk)) := by
  rw [get_eq]
  refine Op.Assured.bind ?_ fun _ => Op.assured_pure _
  split
  · exact Op.assured_pure _
  · exact World.getChunks_assured _

theorem ChunkSession.commit_assured (s : ChunkSession) :
    Op.Assured (s.commit : Op κ StoreError ChunkSession) := by
  rw [commit_eq]
  refine Op.Assured.bind ?_ fun _ => Op.Assured.bind ?_ fun _ => Op.assured_pure _
  · split
    · exact Op.assured_pure _
    · exact World.cleanChunks_assured _
  · split
    · exact Op.assured_pure _
    · exact World.storeChunks_assured _

/-! ## Commits -/

theorem Resource.commitAll_assured {rs : List (Resource κ)}
    (h : ∀ r ∈ rs, Op.Assured r.commit) : Op.Assured (commitAll rs) := by
  induction rs with
  | nil => exact Op.assured_pure ()
  | cons r rs ih =>
    intro w hw
    have hfirst := h r List.mem_cons_self w hw
    have hrest := ih fun r hr => h r (List.mem_cons_of_mem _ hr)
    refine ensures_intro ?_ ?_
    · intro _ w' hok
      obtain ⟨u, hu, h1⟩ := commitAll_ok hok
      exact (hrest u (hfirst.ok hu)).ok h1
    · intro e w' he
      rcases commitAll_error he with ⟨u, hu, -⟩ | ⟨u, hu, h1⟩
      · exact hfirst.error hu
      · exact (hrest u (hfirst.ok hu)).error h1

theorem Op.Assured.discard {o : Op κ ε α} (ho : Assured o) :
    Assured (Functor.discard o) := by
  intro w hw
  refine ensures_intro ?_ ?_
  · intro _ w' h
    obtain ⟨a, ha⟩ := discard_ok.mp h
    exact (ho w hw).ok ha
  · intro e w' h
    exact (ho w hw).error (discard_error.mp h)

/-- A transaction with nothing to send and without enlisted resources commits. -/
theorem Transaction.commit_assured {tx : Transaction κ} (wire : Wire) (ho : tx.outbox = [])
    (hr : tx.resources = []) : Op.Assured (tx.commit wire) := by
  refine Resource.commitAll_assured fun r hm => ?_
  unfold participants at hm
  rw [ho, hr] at hm
  simp only [List.append_nil, List.mem_cons, List.not_mem_nil, or_false] at hm
  rcases hm with rfl | rfl | rfl
  · exact Op.assured_pure ()
  · exact (LogSession.commit_assured _).discard
  · exact (ChunkSession.commit_assured _).discard

/-! ## The pipeline -/

theorem ChunkSession.aggregate_reliable (s : ChunkSession) (id : String) (h : Headers)
    (payload : Bytes) {w : World κ} (hw : w.Reliable) :
    Ensures (s.aggregate id h payload) w (fun _ w' => w'.Reliable)
      fun e => ∀ e', e ≠ .store e' := by
  unfold aggregate
  refine Ensures.bind (Q := fun _ w' => w'.Reliable) ?_ fun position u hu => ?_
  · cases hr : ChunkHeaders.read h with
    | ok position => exact hw
    | error e => exact ChunkHeaders.read_error hr
  · cases position with
    | none => exact ensures_throw (by simp)
    | some position =>
      refine (((s.get_assured id).mapError u hu).mono fun e he => he.elim).bind fun existing v hv => ?_
      cases arrive existing id position payload <;> exact hv

/-- With reliable stores the step leaves them so, or fails, but not for a store that refuses. -/
def Inbound.Frank (x : Inbound κ α) : Prop :=
  ∀ s : Inbox κ, s.world.Reliable →
    Ensures x s (fun _ t => t.world.Reliable) fun e => ¬ e.Refused

namespace Inbound

theorem frank_pure (a : α) : Frank (pure a : Inbound κ α) := fun _ hs => hs

theorem Frank.bind {x : Inbound κ α} {f : α → Inbound κ β} (hx : Frank x)
    (hf : ∀ a, Frank (f a)) : Frank (x >>= f) :=
  fun s hs => (hx s hs).bind fun a t ht => hf a t ht

theorem frank_ofExcept {f : ε → InboundError} {r : Except ε α}
    (h : ∀ e, r = .error e → ¬ (f e).Refused) : Frank (ofExcept f r : Inbound κ α) := by
  intro s hs
  cases hr : r with
  | ok a => exact hs
  | error e => exact h e hr

theorem logContains_frank (id endpoint : String) :
    Frank (logContains id endpoint : Inbound κ Bool) := by
  intro s hs
  have hsees := s.transaction.log.contains_assured id endpoint s.world hs
  refine ensures_intro ?_ ?_
  · intro b t h
    exact hsees.ok (onWorld_ok.mp h).1
  · intro e t h
    obtain ⟨e', he, -⟩ := onWorld_error.mp h
    exact (hsees.error he).elim

theorem aggregate_frank (raw : RawEnvelope) : Frank (aggregate raw : Inbound κ (Option Bytes)) := by
  intro s hs
  have hagg := s.transaction.chunks.aggregate_reliable raw.messageId raw.headers raw.payload hs
  refine ensures_intro ?_ ?_
  · intro joined t h
    rw [aggregate_eq] at h
    obtain ⟨r, u, hr, h1⟩ := bind_ok h
    cases h1
    exact hagg.ok (onWorld_ok.mp hr).1
  · intro e t h
    rw [aggregate_eq] at h
    rcases bind_error h with hr | ⟨r, u, -, h1⟩
    · obtain ⟨e', he, rfl, -⟩ := onWorld_error.mp hr
      have hne := hagg.error he
      rintro ⟨e'', h | h⟩
      · cases h
      · injection h with h
        exact hne e'' h
    · cases h1

end Inbound

namespace Stage

/-- A stage adds no refusal to what the rest of the chain fails with. -/
def Frank (st : Stage κ) : Prop :=
  ∀ next : Passing κ, (∀ p, Inbound.Frank (next p)) → ∀ p, Inbound.Frank (st.handle next p)

theorem chunkAggregation_frank : Frank (chunkAggregation : Stage κ) := by
  intro next hnext p
  have hread : ∀ e, ChunkHeaders.read p.envelope.headers = .error e →
      ¬ (InboundError.chunk e).Refused := by
    intro e he
    have hne := ChunkHeaders.read_error he
    rintro ⟨e', h | h⟩
    · cases h
    · injection h with h
      exact hne e' h
  refine (Inbound.frank_ofExcept hread).bind fun position => ?_
  cases position with
  | none => exact hnext p
  | some position =>
    refine (Inbound.logContains_frank _ _).bind fun known => ?_
    cases known with
    | true => exact Inbound.frank_pure p
    | false =>
      refine (Inbound.aggregate_frank p.envelope).bind fun joined => ?_
      cases joined with
      | none => exact Inbound.frank_pure p
      | some payload => exact hnext _

theorem deduplication_frank : Frank (deduplication : Stage κ) := by
  intro next hnext p
  refine (Inbound.logContains_frank _ _).bind fun known => ?_
  cases known with
  | true => exact Inbound.frank_pure p
  | false => exact Inbound.Frank.bind (fun _ hs => hs) fun _ => hnext p

theorem decryption_frank (c : Cipher) : Frank (decryption c : Stage κ) := by
  intro next hnext p
  have hno : ∀ e, c.decrypt p.envelope.payload p.envelope.headers = .error e →
      ¬ (InboundError.cipher e).Refused := by
    rintro e - ⟨e', h | h⟩ <;> cases h
  exact (Inbound.frank_ofExcept hno).bind fun _ => hnext _

theorem deserialization_frank (r : Registry) : Frank (deserialization r : Stage κ) := by
  intro next hnext p
  unfold deserialization
  dsimp only
  split
  · exact hnext p
  · have hno : ∀ e, r.deserialize p.envelope.payload p.envelope.headers = .error e →
        ¬ (InboundError.serialization e).Refused := by
      rintro e - ⟨e', h | h⟩ <;> cases h
    exact (Inbound.frank_ofExcept hno).bind fun _ => hnext _

end Stage

namespace Pipeline

theorem run_frank {ss : List (Stage κ)} (h : ∀ st ∈ ss, st.Frank) (p : Passage) :
    Inbound.Frank (run ss p) := by
  induction ss generalizing p with
  | nil => exact Inbound.frank_pure _
  | cons st ss ih =>
    have hrest : ∀ q, Inbound.Frank (run ss q) := ih fun x hx => h x (List.mem_cons_of_mem _ hx)
    exact h st List.mem_cons_self (run ss) hrest p

/-- **With reliable stores the pipeline fails only for what is in the message.** -/
theorem process_frank (w : Wire) (raw : RawEnvelope) :
    Inbound.Frank ((create w [] : Pipeline κ).process raw) := by
  have hstages : ∀ st ∈ (create w [] : Pipeline κ).stages, st.Frank := by
    rw [create_stages]
    intro st hst
    rcases mem_builtIn.mp hst with rfl | rfl | ⟨c, -, rfl⟩ | rfl
    · exact Stage.chunkAggregation_frank
    · exact Stage.deduplication_frank
    · exact Stage.decryption_frank c
    · exact Stage.deserialization_frank w.registry
  exact (run_frank hstages _).bind fun _ => Inbound.frank_pure _

end Pipeline

end Relay
