import Relay.Proofs.Settlement
/-!
# Look-ups that a store refuses

Two stages of the pipeline look things up, deduplication and chunk aggregation, and so does settling.
`Denied e` says where a store answers such a look-up with an error `e`: in which stage, for which
message of a batch, behind which stages that hand the message on. The error comes out of the pipeline
and of settling in one of two wrappings (`Reports`), from wherever the look-up was made, and in both
of them it is as fatal as it was.

**Stages of the application.** A stage can do as it likes with the failure of those behind it.
`HandsOn` says that it fails as they do; the built-in stages do so wherever they run the rest of the
chain (`chunkAggregation_handsOn`, `deduplication_handsOn` and so on).

Results:
- `Pipeline.run_denied`, `Attempt.prepare_denied`: what comes out of the pipeline.
- `Settlement.batch_denied`: what comes out of settling.
- `Attempt.denied_of_refused`, `Settlement.denied_of_error`: no error of a store comes out otherwise.
-/
namespace Relay

variable {κ : Type}

/-! ## Wrapped errors -/

/-- The error of a store, as inbound processing reports it. -/
def InboundError.Reports (e : StoreError) (x : InboundError) : Prop :=
  x = .store e ∨ x = .chunk (.store e)

namespace InboundError.Reports

variable {x : InboundError} {e : StoreError}

theorem message (h : Reports e x) : x.message = e.message := by
  rcases h with rfl | rfl <;> rfl

/-- An error is as fatal as the one it wraps. -/
theorem isFatal (h : Reports e x) : x.isFatal = e.isFatal := by
  rcases h with rfl | rfl <;> rfl

end InboundError.Reports

/-! ## Single look-ups -/

namespace Inbox

/-- The log is asked for a message that is not pending in the transaction, and answers with the
error. -/
def LogDenies (e : StoreError) (id endpoint : String) (s : Inbox κ) : Prop :=
  s.transaction.log.pending.contains ⟨id, endpoint⟩ = false ∧
    ∃ w, World.logContains id endpoint s.world = .error e w

/-- The chunk store is asked for the chunks of a message that the transaction has not cleaned up, and
answers with the error. -/
def ChunksDeny (e : StoreError) (id : String) (s : Inbox κ) : Prop :=
  s.transaction.chunks.cleaned.contains id = false ∧ ∃ w, World.getChunks id s.world = .error e w

end Inbox

namespace Inbound

variable {s t : Inbox κ} {e : StoreError} {x : InboundError} {id endpoint : String}
  {raw : RawEnvelope} {position : ChunkHeaders}

theorem logContains_denied (h : s.LogDenies e id endpoint) :
    ∃ t, logContains id endpoint s = .error (.store e) t := by
  obtain ⟨hnew, w, hw⟩ := h
  have hasked : s.transaction.log.contains id endpoint s.world = .error e w := by
    unfold LogSession.contains
    rw [if_neg (by rw [hnew]; exact Bool.false_ne_true)]
    exact hw
  exact ⟨⟨s.transaction, w⟩, onWorld_error.mpr ⟨e, hasked, rfl, rfl⟩⟩

theorem denied_of_logContains (h : logContains id endpoint s = .error x t) :
    ∃ e, InboundError.Reports e x ∧ s.LogDenies e id endpoint := by
  obtain ⟨e, he, rfl, -⟩ := onWorld_error.mp h
  unfold LogSession.contains at he
  split at he
  · cases he
  · next hnew => exact ⟨e, .inl rfl, Bool.eq_false_iff.mpr hnew, _, he⟩

theorem aggregate_fails (hread : ChunkHeaders.read raw.headers = .ok (some position))
    (h : s.ChunksDeny e raw.messageId) : ∃ t, aggregate raw s = .error (.chunk (.store e)) t := by
  obtain ⟨hparked, w, hw⟩ := h
  have hasked : s.transaction.chunks.get raw.messageId s.world = .error e w := by
    rw [ChunkSession.get_eq, if_neg (by rw [hparked]; exact Bool.false_ne_true)]
    exact bind_of_error hw
  exact ⟨_, aggregate_denied hread hasked⟩

theorem denied_of_aggregate (hread : ChunkHeaders.read raw.headers = .ok (some position))
    (h : aggregate raw s = .error x t) :
    ∃ e, InboundError.Reports e x ∧ s.ChunksDeny e raw.messageId := by
  rw [aggregate_eq, ChunkSession.aggregate_read hread] at h
  rcases bind_error h with hr | ⟨r, u, -, h1⟩
  · obtain ⟨e', he, rfl, -⟩ := onWorld_error.mp hr
    rcases bind_error he with hm | ⟨existing, u, -, h1⟩
    · obtain ⟨e, hg, rfl⟩ := Op.mapError_error.mp hm
      rw [ChunkSession.get_eq] at hg
      rcases bind_error hg with hc | ⟨committed, u, -, h1⟩
      · split at hc
        · cases hc
        · next hparked => exact ⟨e, .inr rfl, Bool.eq_false_iff.mpr hparked, _, hc⟩
      · cases h1
    · cases h1
  · cases h1

end Inbound

/-! ## Stages -/

namespace Stage

/-- The stage runs the rest of the chain on the second passage, and fails as that fails. -/
def HandsOn (st : Stage κ) (p : Passage) (s : Inbox κ) (p' : Passage) (s' : Inbox κ) : Prop :=
  ∀ (next : Passing κ) (x : InboundError) (t : Inbox κ), next p' s' = .error x t →
    ∃ t', st.handle next p s = .error x t'

variable {p : Passage} {s t u : Inbox κ}

theorem handsOn_of_eq {st : Stage κ} {p' : Passage} {s' : Inbox κ}
    (h : ∀ next : Passing κ, st.handle next p s = next p' s') : st.HandsOn p s p' s' :=
  fun next _ t hn => ⟨t, (h next).trans hn⟩

/-- A message in one piece. -/
theorem chunkAggregation_handsOn (hread : ChunkHeaders.read p.envelope.headers = .ok none) :
    (chunkAggregation : Stage κ).HandsOn p s p s :=
  handsOn_of_eq fun _ => bind_of_ok (Inbound.ofExcept_ok.mpr ⟨hread, rfl⟩)

/-- What chunk aggregation does with the chunk of a message that is not logged. -/
theorem chunkAggregation_chunk {position : ChunkHeaders} (next : Passing κ)
    (hread : ChunkHeaders.read p.envelope.headers = .ok (some position))
    (hnew : Inbound.logContains p.envelope.messageId p.envelope.endpoint.name s = .ok false t) :
    chunkAggregation.handle next p s = (Inbound.aggregate p.envelope >>= fun joined =>
      match joined with
      | none => pure p
      | some payload => next { p with envelope := { p.envelope with
          payload, headers := ChunkHeaders.remove p.envelope.headers } }) t := by
  refine (bind_of_ok (Inbound.ofExcept_ok.mpr ⟨hread, rfl⟩)).trans ((bind_of_ok hnew).trans ?_)
  refine congrFun (bind_congr fun joined => ?_) t
  cases joined <;> rfl

/-- The chunk that completes a set. -/
theorem chunkAggregation_handsOn_joined {position : ChunkHeaders} {payload : Bytes}
    (hread : ChunkHeaders.read p.envelope.headers = .ok (some position))
    (hnew : Inbound.logContains p.envelope.messageId p.envelope.endpoint.name s = .ok false t)
    (hjoin : Inbound.aggregate p.envelope t = .ok (some payload) u) :
    (chunkAggregation : Stage κ).HandsOn p s { p with envelope := { p.envelope with
      payload, headers := ChunkHeaders.remove p.envelope.headers } } u :=
  handsOn_of_eq fun next =>
    (chunkAggregation_chunk next hread hnew).trans (bind_of_ok hjoin)

/-- A message that is new to the log. -/
theorem deduplication_handsOn
    (hnew : Inbound.logContains p.envelope.messageId p.envelope.endpoint.name s = .ok false t) :
    (deduplication : Stage κ).HandsOn p s p
      ⟨t.transaction.logged p.envelope.messageId p.envelope.endpoint.name, t.world⟩ :=
  handsOn_of_eq fun _ => bind_of_ok hnew

theorem decryption_handsOn {c : Cipher} {payload : Bytes}
    (h : c.decrypt p.envelope.payload p.envelope.headers = .ok payload) :
    (decryption c : Stage κ).HandsOn p s
      { p with envelope := { p.envelope with payload } } s :=
  handsOn_of_eq fun _ => bind_of_ok (Inbound.ofExcept_ok.mpr ⟨h, rfl⟩)

/-- A message that is read already. -/
theorem deserialization_handsOn {r : Registry} (h : p.message ≠ none) :
    (deserialization r : Stage κ).HandsOn p s p s := by
  obtain ⟨envelope, message, accepted⟩ := p
  cases message with
  | none => exact absurd rfl h
  | some m => exact handsOn_of_eq fun _ => rfl

theorem deserialization_handsOn_read {r : Registry} {m : Message} (hnone : p.message = none)
    (h : r.deserialize p.envelope.payload p.envelope.headers = .ok m) :
    (deserialization r : Stage κ).HandsOn p s { p with message := some m } s := by
  obtain ⟨envelope, message, accepted⟩ := p
  cases hnone
  exact handsOn_of_eq fun _ => bind_of_ok (Inbound.ofExcept_ok.mpr ⟨h, rfl⟩)

end Stage

/-! ## The chain -/

namespace Pipeline

/-- On its way through the stages a store refuses a look-up for the message. -/
inductive Denied (e : StoreError) : List (Stage κ) → Passage → Inbox κ → Prop
  /-- Chunk aggregation asks the log for the message of a chunk, -/
  | dropping {ss p s position}
    (hread : ChunkHeaders.read p.envelope.headers = .ok (some position))
    (h : s.LogDenies e p.envelope.messageId p.envelope.endpoint.name) :
    Denied e (.chunkAggregation :: ss) p s
  /-- and the chunk store for the others of its set; -/
  | joining {ss p s t position}
    (hread : ChunkHeaders.read p.envelope.headers = .ok (some position))
    (hnew : Inbound.logContains p.envelope.messageId p.envelope.endpoint.name s = .ok false t)
    (h : t.ChunksDeny e p.envelope.messageId) : Denied e (.chunkAggregation :: ss) p s
  /-- deduplication asks the log for the message; -/
  | known {ss p s} (h : s.LogDenies e p.envelope.messageId p.envelope.endpoint.name) :
    Denied e (.deduplication :: ss) p s
  /-- or a stage behind the first one does. -/
  | behind {st : Stage κ} {ss p s p' s'} (hon : st.HandsOn p s p' s') (h : Denied e ss p' s') :
    Denied e (st :: ss) p s

variable {ss : List (Stage κ)} {p : Passage} {s t : Inbox κ} {e : StoreError} {x : InboundError}

/-- **A refused look-up comes out of the chain.** -/
theorem run_denied (h : Denied e ss p s) : ∃ x t, run ss p s = .error x t ∧ x.Reports e := by
  induction h with
  | dropping hread h =>
    obtain ⟨t, ht⟩ := Inbound.logContains_denied h
    exact ⟨_, t, (bind_of_ok (Inbound.ofExcept_ok.mpr ⟨hread, rfl⟩)).trans (bind_of_error ht),
      .inl rfl⟩
  | joining hread hnew h =>
    obtain ⟨t, ht⟩ := Inbound.aggregate_fails hread h
    exact ⟨_, t, (Stage.chunkAggregation_chunk _ hread hnew).trans (bind_of_error ht), .inr rfl⟩
  | known h =>
    obtain ⟨t, ht⟩ := Inbound.logContains_denied h
    exact ⟨_, t, bind_of_error ht, .inl rfl⟩
  | behind hon _ ih =>
    obtain ⟨x, t, ht, hx⟩ := ih
    obtain ⟨t', ht'⟩ := hon _ _ _ ht
    exact ⟨x, t', ht', hx⟩

theorem process_denied {pipeline : Pipeline κ} {raw : RawEnvelope}
    (h : Denied e pipeline.stages { envelope := raw } s) :
    ∃ x t, pipeline.process raw s = .error x t ∧ x.Reports e := by
  obtain ⟨x, t, ht, hx⟩ := run_denied h
  exact ⟨x, t, bind_of_error ht, hx⟩

/-- The stage was refused a look-up, or it has handed the failure on. -/
def Explains (st : Stage κ) (next : Passing κ) (p : Passage) (s : Inbox κ) (x : InboundError)
    (t : Inbox κ) : Prop :=
  (∃ e, x.Reports e ∧ ∀ ss, Denied e (st :: ss) p s) ∨
    ∃ p' s', st.HandsOn p s p' s' ∧ next p' s' = .error x t

section
variable {next : Passing κ}

theorem chunkAggregation_explains (h : Stage.chunkAggregation.handle next p s = .error x t)
    (hx : x.Refused) : Explains .chunkAggregation next p s x t := by
  rcases bind_error h with hr | ⟨position, s', hr, h1⟩
  · obtain ⟨⟨e', he, rfl⟩, -⟩ := Inbound.ofExcept_error.mp hr
    obtain ⟨e, hstore | hstore⟩ := hx
    · cases hstore
    · cases hstore
      exact absurd rfl (ChunkHeaders.read_error he e)
  obtain ⟨hread, rfl⟩ := Inbound.ofExcept_ok.mp hr
  cases position with
  | none => exact .inr ⟨p, s', Stage.chunkAggregation_handsOn hread, h1⟩
  | some position =>
    rcases bind_error h1 with hl | ⟨known, u, hl, h2⟩
    · obtain ⟨e, he, hd⟩ := Inbound.denied_of_logContains hl
      exact .inl ⟨e, he, fun _ => .dropping hread hd⟩
    cases known with
    | true => cases h2
    | false =>
      rw [Stage.chunkAggregation_chunk next hread hl] at h
      rcases bind_error h with hj | ⟨joined, v, hj, h3⟩
      · obtain ⟨e, he, hd⟩ := Inbound.denied_of_aggregate hread hj
        exact .inl ⟨e, he, fun _ => .joining hread hl hd⟩
      cases joined with
      | none => cases h3
      | some payload => exact .inr ⟨_, v, Stage.chunkAggregation_handsOn_joined hread hl hj, h3⟩

theorem deduplication_explains (h : Stage.deduplication.handle next p s = .error x t) :
    Explains .deduplication next p s x t := by
  rcases bind_error h with hb | ⟨known, u, hb, h1⟩
  · obtain ⟨e, he, hd⟩ := Inbound.denied_of_logContains hb
    exact .inl ⟨e, he, fun _ => .known hd⟩
  · cases known with
    | true => cases h1
    | false => exact .inr ⟨_, _, Stage.deduplication_handsOn hb, h1⟩

theorem decryption_explains {c : Cipher}
    (h : (Stage.decryption c).handle next p s = .error x t) (hx : x.Refused) :
    Explains (.decryption c) next p s x t := by
  rcases bind_error h with hr | ⟨payload, s', hr, h1⟩
  · obtain ⟨⟨e', -, rfl⟩, -⟩ := Inbound.ofExcept_error.mp hr
    obtain ⟨e, hstore | hstore⟩ := hx <;> cases hstore
  · obtain ⟨hdecrypt, rfl⟩ := Inbound.ofExcept_ok.mp hr
    exact .inr ⟨_, s', Stage.decryption_handsOn hdecrypt, h1⟩

theorem deserialization_explains {r : Registry}
    (h : (Stage.deserialization r).handle next p s = .error x t) (hx : x.Refused) :
    Explains (.deserialization r) next p s x t := by
  cases hm : p.message with
  | some m =>
    have hon : (Stage.deserialization r : Stage κ).handle next p s = next p s := by
      unfold Stage.deserialization
      dsimp only
      rw [hm]
    exact .inr ⟨p, s, Stage.deserialization_handsOn (by rw [hm]; exact Option.some_ne_none m),
      hon ▸ h⟩
  | none =>
    unfold Stage.deserialization at h
    dsimp only at h
    rw [hm] at h
    rcases bind_error h with hr | ⟨m, s', hr, h1⟩
    · obtain ⟨⟨e', -, rfl⟩, -⟩ := Inbound.ofExcept_error.mp hr
      obtain ⟨e, hstore | hstore⟩ := hx <;> cases hstore
    · obtain ⟨hread, rfl⟩ := Inbound.ofExcept_ok.mp hr
      exact .inr ⟨_, s', Stage.deserialization_handsOn_read hm hread, h1⟩

/-- A built-in stage fails with a store's error only where it was refused a look-up, or where the
stages behind it have failed so. -/
theorem stage_refused {wire : Wire} {st : Stage κ} (hst : st ∈ builtIn wire)
    (h : st.handle next p s = .error x t) (hx : x.Refused) : Explains st next p s x t := by
  rcases mem_builtIn.mp hst with rfl | rfl | ⟨c, -, rfl⟩ | rfl
  · exact chunkAggregation_explains h hx
  · exact deduplication_explains h
  · exact decryption_explains h hx
  · exact deserialization_explains h hx

end

/-- No error of a store comes out of the built-in stages otherwise. -/
theorem run_refused (wire : Wire) (hss : ∀ st ∈ ss, st ∈ builtIn wire)
    (h : run ss p s = .error x t) (hx : x.Refused) : ∃ e, x.Reports e ∧ Denied e ss p s := by
  induction ss generalizing p s with
  | nil => cases h
  | cons st ss ih =>
    rcases stage_refused (hss st List.mem_cons_self) h hx with ⟨e, he, hd⟩ | ⟨p', s', hon, h1⟩
    · exact ⟨e, he, hd ss⟩
    · obtain ⟨e, he, hd⟩ := ih (fun st hst => hss st (List.mem_cons_of_mem _ hst)) h1
      exact ⟨e, he, .behind hon hd⟩

end Pipeline

/-! ## Batches -/

namespace Attempt

/-- On the way of a batch through the pipeline a store refuses a look-up. -/
inductive Denied (e : StoreError) (pipeline : Pipeline κ) (endpoint : Endpoint) :
    List RawMessage → Inbox κ → Prop
  | here {m ms raw s} (hraw : RawEnvelope.ofMessage endpoint m = .ok raw)
    (h : Pipeline.Denied e pipeline.stages { envelope := raw } s) :
    Denied e pipeline endpoint (m :: ms) s
  | later {m ms raw r s t} (hraw : RawEnvelope.ofMessage endpoint m = .ok raw)
    (hm : pipeline.process raw s = .ok r t) (h : Denied e pipeline endpoint ms t) :
    Denied e pipeline endpoint (m :: ms) s

variable {pipeline : Pipeline κ} {endpoint : Endpoint} {ms : List RawMessage} {s t : Inbox κ}
  {e : StoreError} {x : InboundError}

/-- **A look-up refused for a message fails the attempt** at its batch. -/
theorem prepare_denied (h : Denied e pipeline endpoint ms s) :
    ∃ x t, prepare pipeline endpoint ms s = .error x t ∧ x.Reports e := by
  induction h with
  | @here m ms raw s hraw h =>
    obtain ⟨x, t, ht, hx⟩ := Pipeline.process_denied h
    rw [prepare_cons _ hraw]
    exact ⟨x, t, bind_of_error ht, hx⟩
  | @later m ms raw r s t hraw hm _ ih =>
    obtain ⟨x, u, hu, hx⟩ := ih
    rw [prepare_cons _ hraw, bind_of_ok hm]
    exact ⟨x, u, bind_of_error hu, hx⟩

/-- No error of a store comes out of the built-in stages otherwise. -/
theorem denied_of_refused {wire : Wire}
    (h : prepare (.create wire []) endpoint ms s = .error x t) (hx : x.Refused) :
    ∃ e, x.Reports e ∧ Denied e (.create wire []) endpoint ms s := by
  induction ms generalizing s with
  | nil => cases h
  | cons m ms ih =>
    cases hraw : RawEnvelope.ofMessage endpoint m with
    | error e' =>
      rcases bind_error h with hr | ⟨raw, u, hr, -⟩
      · obtain ⟨⟨_, -, rfl⟩, -⟩ := Inbound.ofExcept_error.mp hr
        obtain ⟨e, hstore | hstore⟩ := hx <;> cases hstore
      · rw [hraw] at hr
        cases hr
    | ok raw =>
      rw [prepare_cons _ hraw] at h
      rcases bind_error h with hp | ⟨first, u, hp, h1⟩
      · rcases bind_error hp with hrun | ⟨_, _, -, h2⟩
        · rw [Pipeline.create_stages] at hrun
          obtain ⟨e, he, hd⟩ := Pipeline.run_refused wire (fun _ hst => hst) hrun hx
          rw [← Pipeline.create_stages] at hd
          exact ⟨e, he, .here hraw hd⟩
        · cases h2
      · rcases bind_error h1 with hrest | ⟨_, _, -, h2⟩
        · obtain ⟨e, he, hd⟩ := ih hrest
          exact ⟨e, he, .later hraw hp hd⟩
        · cases h2

end Attempt

/-! ## Settling -/

namespace Settlement

/-- While a batch is settled a store refuses a look-up. -/
inductive Denied (e : StoreError) (endpoint : Endpoint) : List RawMessage → Inbox κ → Prop
  /-- The log is asked for a message, -/
  | known {m ms raw s} (hraw : RawEnvelope.ofMessage endpoint m = .ok raw)
    (h : s.LogDenies e raw.messageId endpoint.name) : Denied e endpoint (m :: ms) s
  /-- or the chunk store for the other chunks of a set, -/
  | joining {m ms raw s t} (hraw : RawEnvelope.ofMessage endpoint m = .ok raw)
    (hchunk : isChunk raw.headers = true)
    (hnew : Inbound.logContains raw.messageId endpoint.name s = .ok false t)
    (h : t.ChunksDeny e raw.messageId) : Denied e endpoint (m :: ms) s
  /-- or one of the two is for a later message. -/
  | later {m ms r s t} (hm : one endpoint m s = .ok r t) (h : Denied e endpoint ms t) :
    Denied e endpoint (m :: ms) s

variable {endpoint : Endpoint} {ms : List RawMessage} {m : RawMessage} {s t : Inbox κ}
  {e : StoreError} {x : InboundError} {wire : Wire} {w w' : World κ}

/-- **A look-up refused for a message fails the settlement** of its batch. -/
theorem many_denied (h : Denied e endpoint ms s) :
    ∃ x t, many endpoint ms s = .error x t ∧ x.Reports e := by
  induction h with
  | known hraw h =>
    obtain ⟨t, ht⟩ := Inbound.logContains_denied h
    refine ⟨_, t, bind_of_error ?_, .inl rfl⟩
    unfold one
    rw [hraw]
    exact bind_of_error ht
  | @joining m ms raw s t hraw hchunk hnew h =>
    obtain ⟨position, hread⟩ := isChunk_iff.mp hchunk
    obtain ⟨u, hu⟩ := Inbound.aggregate_fails hread h
    refine ⟨_, u, bind_of_error ?_, .inr rfl⟩
    unfold one
    rw [hraw]
    refine (bind_of_ok hnew).trans (bind_of_error ?_)
    unfold joinedOf
    rw [if_pos hchunk]
    exact bind_of_error hu
  | later hm _ ih =>
    obtain ⟨x, u, hu, hx⟩ := ih
    exact ⟨x, u, (bind_of_ok hm).trans (bind_of_error hu), hx⟩

theorem batch_denied (wire : Wire) (h : Denied e endpoint ms ⟨{}, w⟩) :
    ∃ x u, batch wire endpoint ms w = .error x u ∧ x.Reports e := by
  obtain ⟨x, t, ht, hx⟩ := many_denied h
  refine ⟨x, ((t.transaction.rollback wire).exec t.world).2, ?_, hx⟩
  unfold batch
  rw [ht]

theorem denied_of_one (h : one endpoint m s = .error x t) :
    ∃ e, x.Reports e ∧ ∀ ms, Denied e endpoint (m :: ms) s := by
  unfold one at h
  cases hraw : RawEnvelope.ofMessage endpoint m with
  | error e' => rw [hraw] at h; cases h
  | ok raw =>
    rw [hraw] at h
    rcases bind_error h with hl | ⟨known, u, hl, h1⟩
    · obtain ⟨e, he, hd⟩ := Inbound.denied_of_logContains hl
      exact ⟨e, he, fun _ => .known hraw hd⟩
    cases known with
    | true => cases h1
    | false =>
      rcases bind_error h1 with hj | ⟨joined, v, -, h2⟩
      · unfold joinedOf at hj
        split at hj
        · next hchunk =>
          obtain ⟨position, hread⟩ := isChunk_iff.mp hchunk
          rcases bind_error hj with ha | ⟨payload, v, -, h2⟩
          · obtain ⟨e, he, hd⟩ := Inbound.denied_of_aggregate hread ha
            exact ⟨e, he, fun _ => .joining hraw hchunk hl hd⟩
          · cases payload <;> cases h2
        · cases hj
      · cases joined <;> cases h2

/-- Nothing else makes a settlement fail. -/
theorem denied_of_error (h : batch wire endpoint ms w = .error x w') :
    ∃ e, x.Reports e ∧ Denied e endpoint ms ⟨{}, w⟩ := by
  have hmany : ∃ t, many endpoint ms ⟨{}, w⟩ = .error x t := by
    unfold batch at h
    cases hm : many endpoint ms ⟨{}, w⟩ with
    | ok settled t => rw [hm] at h; cases h
    | error e t => rw [hm] at h; cases h; exact ⟨t, rfl⟩
  obtain ⟨t, hmany⟩ := hmany
  clear h
  generalize (⟨{}, w⟩ : Inbox κ) = s at hmany ⊢
  induction ms generalizing s with
  | nil => cases hmany
  | cons m ms ih =>
    rcases bind_error hmany with ho | ⟨r, u, ho, h1⟩
    · obtain ⟨e, he, hd⟩ := denied_of_one ho
      exact ⟨e, he, hd ms⟩
    · rcases bind_error h1 with hrest | ⟨_, _, -, h2⟩
      · obtain ⟨e, he, hd⟩ := ih u hrest
        exact ⟨e, he, .later ho hd⟩
      · cases h2

end Settlement

end Relay
