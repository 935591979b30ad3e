import Relay.Proofs.Session
import Relay.Settlement
/-!
# How a message is taken in

`Intake` says everything that taking in one message does to a transaction before its payload is
read: the message is in the log, its chunk is kept back, its chunk completes the set, or it is
new and in one piece. `front_ok` ties it to the first two stages of the pipeline, `process_ok` to
the whole pipeline without custom stages, `one_ok` to settling. `front_error` and `process_error`
say where a message that was not processed has failed.
-/
namespace Relay

open World (Alike)

variable {κ : Type}

/-! ## Steps of inbound processing -/

/-- The transaction is the same, and the world but for the failures in store and the journal. -/
def Untouched (s t : Inbox κ) : Prop := t.transaction = s.transaction ∧ Alike s.world t.world

instance : Std.Refl (Untouched (κ := κ)) := ⟨fun _ => ⟨rfl, Std.Refl.refl _⟩⟩

instance : IsTrans (Inbox κ) Untouched :=
  ⟨fun _ _ _ h h' => ⟨h'.1.trans h.1, h.2.trans h'.2⟩⟩

/-- A store has refused a look-up. -/
def InboundError.Refused (e : InboundError) : Prop :=
  ∃ e', e = .store e' ∨ e = .chunk (.store e')

theorem ChunkSession.aggregate_refused {s : ChunkSession} {id : String} {h : Headers}
    {payload : Bytes} {position : ChunkHeaders} {e : ChunkError} {w w' : World κ}
    (hread : ChunkHeaders.read h = .ok (some position))
    (he : s.aggregate id h payload w = .error e w') : ∃ e', e = .store e' := by
  unfold aggregate at he
  rw [hread] at he
  rcases bind_error he with hr | ⟨p, u, hr, h1⟩
  · cases (Op.ofExcept_error.mp hr).1
  obtain ⟨hp, -⟩ := Op.ofExcept_ok.mp hr
  cases hp
  rcases bind_error h1 with hg | ⟨existing, v, -, h2⟩
  · obtain ⟨e', -, rfl⟩ := Op.mapError_error.mp hg
    exact ⟨e', rfl⟩
  · cases ha : arrive existing id position payload <;> rw [ha] at h2 <;> cases h2

theorem ChunkSession.aggregate_read {session : ChunkSession} {id : String} {headers : Headers}
    {payload : Bytes} {position : ChunkHeaders}
    (hread : ChunkHeaders.read headers = .ok (some position)) :
    (session.aggregate id headers payload : Op κ ChunkError _) =
      (session.get id).mapError ChunkError.store >>= fun existing =>
        pure (session.take existing id position payload) := by
  unfold aggregate
  rw [hread]
  change ((session.get id).mapError ChunkError.store >>= fun existing => _) = _
  refine bind_congr fun existing => ?_
  unfold take
  cases arrive existing id position payload <;> rfl

namespace Inbound

variable {ε α : Type}

theorem onWorld_ok {f : ε → InboundError} {o : Op κ ε α} {a : α} {s t : Inbox κ} :
    onWorld f o s = .ok a t ↔ o s.world = .ok a t.world ∧ t.transaction = s.transaction := by
  unfold onWorld
  obtain ⟨tx, w⟩ := t
  split
  · next b w' h => simp only [h, EStateM.Result.ok.injEq, Inbox.mk.injEq]; grind
  · next e w' h => simp [h]

theorem onWorld_error {f : ε → InboundError} {o : Op κ ε α} {e : InboundError} {s t : Inbox κ} :
    onWorld f o s = .error e t ↔
      ∃ e', o s.world = .error e' t.world ∧ f e' = e ∧ t.transaction = s.transaction := by
  unfold onWorld
  obtain ⟨tx, w⟩ := t
  split
  · next b w' h => simp [h]
  · next e' w' h => simp only [h, EStateM.Result.error.injEq, Inbox.mk.injEq]; grind

/-- An operation on the world leaves the transaction alone. -/
theorem onWorld_within {R : World κ → World κ → Prop} {T : Inbox κ → Inbox κ → Prop}
    {f : ε → InboundError} {o : Op κ ε α} (h : Within R o)
    (hT : ∀ tx w w', R w w' → T ⟨tx, w⟩ ⟨tx, w'⟩) : Within T (onWorld f o) := by
  rintro ⟨tx, w⟩
  have hw := h w
  unfold endState onWorld at *
  cases ho : o w <;> rw [ho] at hw <;> exact hT tx w _ hw

theorem onWorld_untouched {f : ε → InboundError} {o : Op κ ε α} (h : Within Alike o) :
    Within Untouched (onWorld f o) :=
  onWorld_within h fun _ _ _ hw => ⟨rfl, hw⟩

theorem ofExcept_ok {f : ε → InboundError} {r : Except ε α} {a : α} {s t : Inbox κ} :
    ofExcept f r s = .ok a t ↔ r = .ok a ∧ t = s := by
  cases r with
  | ok b =>
    change EStateM.Result.ok b s = _ ↔ _
    simp [eq_comm]
  | error e =>
    change EStateM.Result.error (f e) s = _ ↔ _
    simp

theorem ofExcept_error {f : ε → InboundError} {r : Except ε α} {e : InboundError} {s t : Inbox κ} :
    ofExcept f r s = .error e t ↔ (∃ e', r = .error e' ∧ f e' = e) ∧ t = s := by
  cases r with
  | ok b =>
    change EStateM.Result.ok b s = _ ↔ _
    simp
  | error e' =>
    change EStateM.Result.error (f e') s = _ ↔ _
    simp [eq_comm]

theorem logContains_untouched (id endpoint : String) :
    Within Untouched (logContains id endpoint : Inbound κ Bool) :=
  within_bind within_get fun s => onWorld_untouched (s.transaction.log.contains_alike id endpoint)

theorem logContains_ok {id endpoint : String} {b : Bool} {s t : Inbox κ}
    (h : logContains id endpoint s = .ok b t) :
    s.transaction.log.sees s.world.log id endpoint = .ok b :=
  LogSession.contains_ok (onWorld_ok.mp h).1

theorem logContains_error {id endpoint : String} {e : InboundError} {s t : Inbox κ}
    (h : logContains id endpoint s = .error e t) : e.Refused ∧ Untouched s t := by
  obtain ⟨e', -, he, -⟩ := onWorld_error.mp h
  exact ⟨⟨e', Or.inl he.symm⟩, (logContains_untouched _ _).error h⟩

theorem aggregate_eq (raw : RawEnvelope) (s : Inbox κ) :
    aggregate raw s = ((onWorld .chunk
        (s.transaction.chunks.aggregate raw.messageId raw.headers raw.payload) : Inbound κ _) >>=
      fun r t => .ok r.1 { t with transaction := { t.transaction with chunks := r.2 } }) s := rfl

theorem aggregate_ok {raw : RawEnvelope} {joined : Option Bytes} {s t : Inbox κ}
    (h : aggregate raw s = .ok joined t) :
    ∃ position existing, ChunkHeaders.read raw.headers = .ok (some position) ∧
      s.transaction.chunks.sees s.world.chunks raw.messageId = .ok existing ∧
      joined = (s.transaction.chunks.take existing raw.messageId position raw.payload).1 ∧
      t.transaction = { s.transaction with
        chunks := (s.transaction.chunks.take existing raw.messageId position raw.payload).2 } ∧
      Alike s.world t.world := by
  rw [aggregate_eq] at h
  obtain ⟨r, u, hr, h1⟩ := bind_ok h
  obtain ⟨hagg, hu⟩ := onWorld_ok.mp hr
  obtain ⟨position, existing, hp, he, rfl⟩ := ChunkSession.aggregate_ok hagg
  cases h1
  exact ⟨position, existing, hp, he, rfl, by rw [hu], (ChunkSession.aggregate_alike _ _ _ _).ok hagg⟩

theorem aggregate_untouched {raw : RawEnvelope} {e : InboundError} {s t : Inbox κ}
    (h : aggregate raw s = .error e t) : Untouched s t := by
  rw [aggregate_eq] at h
  rcases bind_error h with hr | ⟨r, u, -, h1⟩
  · exact (onWorld_untouched (ChunkSession.aggregate_alike _ _ _ _)).error hr
  · cases h1

theorem aggregate_denied {raw : RawEnvelope} {position : ChunkHeaders} {s : Inbox κ}
    (hread : ChunkHeaders.read raw.headers = .ok (some position)) {e : StoreError} {w : World κ}
    (hg : s.transaction.chunks.get raw.messageId s.world = .error e w) :
    aggregate raw s = .error (.chunk (.store e)) ⟨s.transaction, w⟩ := by
  have hagg : s.transaction.chunks.aggregate raw.messageId raw.headers raw.payload s.world =
      .error (.store e) w := by
    rw [ChunkSession.aggregate_read hread]
    exact bind_of_error (Op.mapError_error.mpr ⟨e, hg, rfl⟩)
  have hon : onWorld .chunk _ s = .error _ ⟨s.transaction, w⟩ :=
    onWorld_error.mpr ⟨_, hagg, rfl, rfl⟩
  rw [aggregate_eq]
  exact bind_of_error hon

theorem aggregate_error {raw : RawEnvelope} {position : ChunkHeaders} {e : InboundError}
    {s t : Inbox κ} (hread : ChunkHeaders.read raw.headers = .ok (some position))
    (h : aggregate raw s = .error e t) : e.Refused ∧ Untouched s t := by
  refine ⟨?_, aggregate_untouched h⟩
  rw [aggregate_eq] at h
  rcases bind_error h with hr | ⟨r, u, -, h1⟩
  · obtain ⟨e', he, rfl, -⟩ := onWorld_error.mp hr
    obtain ⟨e'', rfl⟩ := ChunkSession.aggregate_refused hread he
    exact ⟨e'', Or.inr rfl⟩
  · cases h1

end Inbound

/-! ## The first two stages -/

/-- The transaction with a message logged. -/
def Transaction.logged (tx : Transaction κ) (id endpoint : String) : Transaction κ :=
  { tx with log := tx.log.add ⟨id, endpoint⟩ }

/-- What taking in a message makes of a transaction over a log and a chunk store, with the payload
and the headers it goes on with if it is neither dropped nor parked. -/
inductive Intake (l : InboundLog) (c : ChunkStore) (raw : RawEnvelope) (tx : Transaction κ) :
    Option (Bytes × Headers) → Transaction κ → Prop
  | known (hlog : tx.log.sees l raw.messageId raw.endpoint.name = .ok true) :
    Intake l c raw tx none tx
  | held {position existing} (hlog : tx.log.sees l raw.messageId raw.endpoint.name = .ok false)
    (hread : ChunkHeaders.read raw.headers = .ok (some position))
    (hsees : tx.chunks.sees c raw.messageId = .ok existing)
    (htake : (tx.chunks.take existing raw.messageId position raw.payload).1 = none) :
    Intake l c raw tx none
      { tx with chunks := (tx.chunks.take existing raw.messageId position raw.payload).2 }
  | joined {position existing payload}
    (hlog : tx.log.sees l raw.messageId raw.endpoint.name = .ok false)
    (hread : ChunkHeaders.read raw.headers = .ok (some position))
    (hsees : tx.chunks.sees c raw.messageId = .ok existing)
    (htake : (tx.chunks.take existing raw.messageId position raw.payload).1 = some payload) :
    Intake l c raw tx (some (payload, ChunkHeaders.remove raw.headers))
      (Transaction.logged
        { tx with chunks := (tx.chunks.take existing raw.messageId position raw.payload).2 }
        raw.messageId raw.endpoint.name)
  | plain (hlog : tx.log.sees l raw.messageId raw.endpoint.name = .ok false)
    (hread : Settlement.isChunk raw.headers = false) :
    Intake l c raw tx (some (raw.payload, raw.headers))
      (tx.logged raw.messageId raw.endpoint.name)

namespace Stage

variable {next : Passing κ} {p q : Passage} {e : InboundError} {s t : Inbox κ}

theorem deduplication_ok (h : deduplication.handle next p s = .ok q t) :
    let known := s.transaction.log.sees s.world.log p.envelope.messageId p.envelope.endpoint.name
    (known = .ok true ∧ q = p ∧ Untouched s t) ∨
      (known = .ok false ∧ ∃ u, next p u = .ok q t ∧ Alike s.world u.world ∧
        u.transaction = s.transaction.logged p.envelope.messageId p.envelope.endpoint.name) := by
  obtain ⟨b, u, hb, h1⟩ := bind_ok h
  have hsees := Inbound.logContains_ok hb
  have hu := (Inbound.logContains_untouched _ _).ok hb
  cases b with
  | true => cases h1; exact Or.inl ⟨hsees, rfl, hu⟩
  | false =>
    obtain ⟨_, v, hv, h2⟩ := bind_ok h1
    cases hv
    exact Or.inr ⟨hsees, _, h2, hu.2, by rw [← hu.1]; rfl⟩

theorem deduplication_error (h : deduplication.handle next p s = .error e t) :
    (e.Refused ∧ Untouched s t) ∨
      s.transaction.log.sees s.world.log p.envelope.messageId p.envelope.endpoint.name = .ok false ∧
        ∃ u, next p u = .error e t ∧ Alike s.world u.world ∧
          u.transaction = s.transaction.logged p.envelope.messageId p.envelope.endpoint.name := by
  rcases bind_error h with hb | ⟨b, u, hb, h1⟩
  · exact Or.inl (Inbound.logContains_error hb)
  have hsees := Inbound.logContains_ok hb
  have hu := (Inbound.logContains_untouched _ _).ok hb
  cases b with
  | true => cases h1
  | false =>
    rcases bind_error h1 with hv | ⟨_, v, hv, h2⟩
    · cases hv
    · cases hv
      exact Or.inr ⟨hsees, _, h2, hu.2, by rw [← hu.1]; rfl⟩

theorem chunkAggregation_ok (h : chunkAggregation.handle next p s = .ok q t) :
    (ChunkHeaders.read p.envelope.headers = .ok none ∧ next p s = .ok q t) ∨
      ∃ position, ChunkHeaders.read p.envelope.headers = .ok (some position) ∧
        let env := p.envelope
        let known := s.transaction.log.sees s.world.log env.messageId env.endpoint.name
        ((known = .ok true ∧ q = p ∧ Untouched s t) ∨ (known = .ok false ∧ ∃ existing u,
          s.transaction.chunks.sees s.world.chunks env.messageId = .ok existing ∧
          Alike s.world u.world ∧
          let r := s.transaction.chunks.take existing env.messageId position env.payload
          u.transaction = { s.transaction with chunks := r.2 } ∧
          ((r.1 = none ∧ q = p ∧ t = u) ∨ ∃ payload, r.1 = some payload ∧
            next { p with envelope := { env with
              payload, headers := ChunkHeaders.remove env.headers } } u = .ok q t))) := by
  obtain ⟨c, u, hc, h1⟩ := bind_ok h
  obtain ⟨hread, hu⟩ := Inbound.ofExcept_ok.mp hc
  subst hu
  cases c with
  | none => exact Or.inl ⟨hread, h1⟩
  | some position =>
    refine Or.inr ⟨position, hread, ?_⟩
    obtain ⟨b, v, hb, h2⟩ := bind_ok h1
    have hsees := Inbound.logContains_ok hb
    have hv := (Inbound.logContains_untouched _ _).ok hb
    cases b with
    | true => cases h2; exact Or.inl ⟨hsees, rfl, hv⟩
    | false =>
      obtain ⟨joined, x, hj, h3⟩ := bind_ok h2
      obtain ⟨position', existing, hread', he, htake, htx, hx⟩ := Inbound.aggregate_ok hj
      rw [hread, Except.ok.injEq, Option.some.injEq] at hread'
      subst hread'
      rw [hv.1] at htake htx he
      rw [hv.2.chunks] at he
      refine Or.inr ⟨hsees, existing, x, he, hv.2.trans hx, htx, ?_⟩
      cases joined with
      | none => cases h3; exact Or.inl ⟨htake.symm, rfl, rfl⟩
      | some payload => exact Or.inr ⟨payload, htake.symm, h3⟩

theorem chunkAggregation_error (h : chunkAggregation.handle next p s = .error e t) :
    (((∃ e', ChunkHeaders.read p.envelope.headers = .error e') ∨ e.Refused) ∧ Untouched s t) ∨
      (ChunkHeaders.read p.envelope.headers = .ok none ∧ next p s = .error e t) ∨
      ∃ position, ChunkHeaders.read p.envelope.headers = .ok (some position) ∧
        let env := p.envelope
        s.transaction.log.sees s.world.log env.messageId env.endpoint.name = .ok false ∧
        ∃ existing payload u,
          s.transaction.chunks.sees s.world.chunks env.messageId = .ok existing ∧
          Alike s.world u.world ∧
          let r := s.transaction.chunks.take existing env.messageId position env.payload
          u.transaction = { s.transaction with chunks := r.2 } ∧ r.1 = some payload ∧
            next { p with envelope := { env with
              payload, headers := ChunkHeaders.remove env.headers } } u = .error e t := by
  rcases bind_error h with hc | ⟨c, u, hc, h1⟩
  · obtain ⟨⟨e', he, -⟩, ht⟩ := Inbound.ofExcept_error.mp hc
    subst ht
    exact Or.inl ⟨Or.inl ⟨e', he⟩, Std.Refl.refl _⟩
  obtain ⟨hread, hu⟩ := Inbound.ofExcept_ok.mp hc
  subst hu
  cases c with
  | none => exact Or.inr (Or.inl ⟨hread, h1⟩)
  | some position =>
    rcases bind_error h1 with hb | ⟨b, v, hb, h2⟩
    · obtain ⟨hrefused, ht⟩ := Inbound.logContains_error hb
      exact Or.inl ⟨Or.inr hrefused, ht⟩
    have hsees := Inbound.logContains_ok hb
    have hv := (Inbound.logContains_untouched _ _).ok hb
    cases b with
    | true => cases h2
    | false =>
      rcases bind_error h2 with hj | ⟨joined, x, hj, h3⟩
      · obtain ⟨hrefused, ht⟩ := Inbound.aggregate_error hread hj
        exact Or.inl ⟨Or.inr hrefused, IsTrans.trans _ _ _ hv ht⟩
      obtain ⟨position', existing, hread', he, htake, htx, hx⟩ := Inbound.aggregate_ok hj
      rw [hread, Except.ok.injEq, Option.some.injEq] at hread'
      subst hread'
      rw [hv.1] at htake htx he
      rw [hv.2.chunks] at he
      cases joined with
      | none => cases h3
      | some payload =>
        exact Or.inr (Or.inr ⟨position, hread, hsees, existing, payload, x, he, hv.2.trans hx, htx,
          htake.symm, h3⟩)

end Stage

/-- What the first two stages make of a message: it goes on to the others exactly if `Intake` has it
go on, with the payload and the headers given there. -/
theorem front_ok {rest : List (Stage κ)} {raw : RawEnvelope} {p : Passage} {s t : Inbox κ}
    (h : Pipeline.run (.chunkAggregation :: .deduplication :: rest) { envelope := raw } s = .ok p t) :
    (∃ position, ChunkHeaders.read raw.headers = .ok position) ∧
    ∃ o u, Intake s.world.log s.world.chunks raw s.transaction o u.transaction ∧
      Alike s.world u.world ∧
      match o with
      | none => p = { envelope := raw } ∧ t = u
      | some (payload, headers) =>
        Pipeline.run rest { envelope := { raw with payload, headers } } u = .ok p t := by
  rcases Stage.chunkAggregation_ok h with ⟨hread, h1⟩ | ⟨position, hread, h1⟩
  · refine ⟨⟨_, hread⟩, ?_⟩
    have hplain : Settlement.isChunk raw.headers = false := by simp [Settlement.isChunk, hread]
    rcases Stage.deduplication_ok h1 with ⟨hlog, rfl, ht⟩ | ⟨hlog, u, h2, hu, htx⟩
    · refine ⟨none, t, ?_, ht.2, rfl, rfl⟩
      rw [ht.1]
      exact .known hlog
    · refine ⟨some (raw.payload, raw.headers), u, ?_, hu, h2⟩
      rw [htx]
      exact .plain hlog hplain
  · refine ⟨⟨_, hread⟩, ?_⟩
    rcases h1 with ⟨hlog, rfl, ht⟩ | ⟨hlog, existing, u, hsees, hu, htx, h2⟩
    · refine ⟨none, t, ?_, ht.2, rfl, rfl⟩
      rw [ht.1]
      exact .known hlog
    rcases h2 with ⟨htake, rfl, rfl⟩ | ⟨payload, htake, h2⟩
    · refine ⟨none, t, ?_, hu, rfl, rfl⟩
      rw [htx]
      exact .held hlog hread hsees htake
    rcases Stage.deduplication_ok h2 with ⟨hlog', rfl, -⟩ | ⟨-, v, h3, hv, htx'⟩
    · rw [htx, hu.log] at hlog'
      cases hlog.symm.trans hlog'
    · refine ⟨some (payload, ChunkHeaders.remove raw.headers), v, ?_, hu.trans hv, h3⟩
      rw [htx', htx]
      exact .joined hlog hread hsees htake

/-- Where the first two stages fail, the chunk headers cannot be read or a store has refused a
look-up, or the message has gone on to the others. -/
theorem front_error {rest : List (Stage κ)} {raw : RawEnvelope} {e : InboundError} {s t : Inbox κ}
    (h : Pipeline.run (.chunkAggregation :: .deduplication :: rest) { envelope := raw } s =
      .error e t) :
    (((∃ e', ChunkHeaders.read raw.headers = .error e') ∨ e.Refused) ∧ Alike s.world t.world ∧
      t.transaction = { s.transaction with chunks := t.transaction.chunks }) ∨
    ∃ payload headers u,
      Intake s.world.log s.world.chunks raw s.transaction (some (payload, headers)) u.transaction ∧
      Alike s.world u.world ∧
      Pipeline.run rest { envelope := { raw with payload, headers } } u = .error e t := by
  rcases Stage.chunkAggregation_error h with ⟨hcause, ht⟩ | ⟨hread, h1⟩ | ⟨position, hread, hlog, h1⟩
  · exact Or.inl ⟨hcause, ht.2, by rw [ht.1]⟩
  · have hplain : Settlement.isChunk raw.headers = false := by simp [Settlement.isChunk, hread]
    rcases Stage.deduplication_error h1 with ⟨hrefused, ht⟩ | ⟨hlog, u, h2, hu, htx⟩
    · exact Or.inl ⟨Or.inr hrefused, ht.2, by rw [ht.1]⟩
    · refine Or.inr ⟨raw.payload, raw.headers, u, ?_, hu, h2⟩
      rw [htx]
      exact .plain hlog hplain
  · obtain ⟨existing, payload, u, hsees, hu, htx, htake, h2⟩ := h1
    rcases Stage.deduplication_error h2 with ⟨hrefused, ht⟩ | ⟨-, v, h3, hv, htx'⟩
    · exact Or.inl ⟨Or.inr hrefused, hu.trans ht.2, by rw [ht.1, htx]⟩
    · refine Or.inr ⟨payload, ChunkHeaders.remove raw.headers, v, ?_, hu.trans hv, h3⟩
      rw [htx', htx]
      exact .joined hlog hread hsees htake

/-! ## The whole pipeline -/

/-- The payload of a message that was taken in, as it was before encryption, and the message
in it. -/
def Wire.unpack (w : Wire) (payload : Bytes) (h : Headers) : Except InboundError (Bytes × Message) :=
  match w.cipher with
  | none =>
    match w.registry.deserialize payload h with
    | .ok m => .ok (payload, m)
    | .error e => .error (.serialization e)
  | some c =>
    match c.decrypt payload h with
    | .error e => .error (.cipher e)
    | .ok plain =>
      match w.registry.deserialize plain h with
      | .ok m => .ok (plain, m)
      | .error e => .error (.serialization e)

namespace Pipeline

theorem create_stages (w : Wire) : (create w [] : Pipeline κ).stages = builtIn w := by
  unfold create builtIn
  rw [List.append_nil]
  refine List.mergeSort_of_pairwise ?_
  cases w.cipher <;> simp [Stage.chunkAggregation, Stage.deduplication, Stage.decryption,
    Stage.deserialization]

theorem mem_builtIn {w : Wire} {st : Stage κ} :
    st ∈ builtIn w ↔ st = .chunkAggregation ∨ st = .deduplication ∨
      (∃ c, w.cipher = some c ∧ .decryption c = st) ∨ st = .deserialization w.registry := by
  simp [builtIn]

/-- The stages behind deduplication. -/
def lastStages (w : Wire) : List (Stage κ) :=
  (w.cipher.map Stage.decryption).toList ++ [.deserialization w.registry]

theorem run_lastStages (w : Wire) {p : Passage} (hp : p.message = none) (s : Inbox κ) :
    run (lastStages w) p s =
      match w.unpack p.envelope.payload p.envelope.headers with
      | .ok (payload, m) =>
        .ok ⟨{ p.envelope with payload }, some m, true⟩ s
      | .error e => .error e s := by
  obtain ⟨env, m, a⟩ := p
  cases hp
  unfold lastStages Wire.unpack
  cases w.cipher with
  | none =>
    cases hd : w.registry.deserialize env.payload env.headers <;>
      simp [run, Stage.deserialization, hd, Inbound.ofExcept] <;> rfl
  | some c =>
    cases hc : c.decrypt env.payload env.headers with
    | error e => simp [run, Stage.decryption, hc, Inbound.ofExcept]; rfl
    | ok plain =>
      cases hd : w.registry.deserialize plain env.headers <;>
        simp [run, Stage.decryption, Stage.deserialization, hc, hd, Inbound.ofExcept] <;> rfl

theorem process_ok {w : Wire} {raw : RawEnvelope} {r : Option Message} {s t : Inbox κ}
    (h : (create w []).process raw s = .ok r t) :
    (∃ position, ChunkHeaders.read raw.headers = .ok position) ∧
    ∃ o, Intake s.world.log s.world.chunks raw s.transaction o t.transaction ∧
      Alike s.world t.world ∧
      match o with
      | none => r = none
      | some (payload, headers) => ∃ plain m, w.unpack payload headers = .ok (plain, m) ∧
        r = some (.inbound { raw with payload := plain, headers } (some m) true) := by
  obtain ⟨p, u, hp, h1⟩ := bind_ok h
  rw [create_stages] at hp
  obtain ⟨hread, o, v, hin, hv, ho⟩ := front_ok hp
  refine ⟨hread, o, ?_⟩
  cases o with
  | none =>
    obtain ⟨rfl, rfl⟩ := ho
    cases h1
    exact ⟨hin, hv, rfl⟩
  | some b =>
    change run (lastStages w) _ v = _ at ho
    rw [run_lastStages w rfl] at ho
    split at ho
    · next plain m hm =>
      cases ho
      cases h1
      exact ⟨hin, hv, plain, m, hm, rfl⟩
    · cases ho

/-- Where a message was not processed, its chunk headers cannot be read or a store has refused a
look-up, or what was taken in of it cannot be unpacked. -/
theorem process_error {w : Wire} {raw : RawEnvelope} {e : InboundError} {s t : Inbox κ}
    (h : (create w []).process raw s = .error e t) :
    Alike s.world t.world ∧
      (((∃ e', ChunkHeaders.read raw.headers = .error e') ∨ e.Refused) ∧
        t.transaction = { s.transaction with chunks := t.transaction.chunks } ∨
      ∃ payload headers,
        Intake s.world.log s.world.chunks raw s.transaction (some (payload, headers)) t.transaction ∧
        w.unpack payload headers = .error e) := by
  obtain hp | ⟨p, u, -, h1⟩ := bind_error h
  case inr => cases h1
  rw [create_stages] at hp
  rcases front_error hp with ⟨hcause, ht, htx⟩ | ⟨payload, headers, u, hin, hu, hlast⟩
  · exact ⟨ht, Or.inl ⟨hcause, htx⟩⟩
  · change run (lastStages w) _ u = _ at hlast
    rw [run_lastStages w rfl] at hlast
    split at hlast
    · cases hlast
    · next he =>
      cases hlast
      exact ⟨hu, Or.inr ⟨payload, headers, hin, he⟩⟩

theorem process_failed {w : Wire} {raw : RawEnvelope} {position : Option ChunkHeaders}
    {e : InboundError} {s t : Inbox κ} (hread : ChunkHeaders.read raw.headers = .ok position)
    (h : (create w []).process raw s = .error e t) :
    e.Refused ∨ ∃ payload headers,
      Intake s.world.log s.world.chunks raw s.transaction (some (payload, headers)) t.transaction ∧
      w.unpack payload headers = .error e := by
  rcases (process_error h).2 with ⟨⟨e', he⟩ | hrefused, -⟩ | htaken
  · rw [hread] at he
    cases he
  · exact Or.inl hrefused
  · exact Or.inr htaken

end Pipeline

/-! ## Settling -/

namespace Settlement

theorem isChunk_iff {h : Headers} :
    isChunk h = true ↔ ∃ position, ChunkHeaders.read h = .ok (some position) := by
  unfold isChunk
  split <;> simp_all

theorem ofMessage_ok {endpoint : Endpoint} {m : RawMessage} {raw : RawEnvelope}
    (h : RawEnvelope.ofMessage endpoint m = .ok raw) :
    ∃ id, m.headers.get? Headers.messageId = some id ∧
      raw = ⟨m.payload, m.headers, endpoint, m.offset, id⟩ := by
  unfold RawEnvelope.ofMessage at h
  split at h
  · next id hid => cases h; exact ⟨id, hid, rfl⟩
  · cases h

theorem ofMessage_error {endpoint : Endpoint} {m : RawMessage} {e : EnvelopeError}
    (h : RawEnvelope.ofMessage endpoint m = .error e) : m.headers.get? Headers.messageId = none := by
  unfold RawEnvelope.ofMessage at h
  split at h
  · cases h
  · assumption

theorem one_ok {endpoint : Endpoint} {m : RawMessage} {r : Option RawMessage} {s t : Inbox κ}
    (h : one endpoint m s = .ok r t) :
    Alike s.world t.world ∧
    match RawEnvelope.ofMessage endpoint m with
    | .error _ => r = some m ∧ t = s
    | .ok raw => ∃ o, Intake s.world.log s.world.chunks raw s.transaction o t.transaction ∧
        r = o.map fun b => { m with payload := b.1, headers := b.2 } := by
  unfold one at h
  cases hraw : RawEnvelope.ofMessage endpoint m with
  | error e =>
    rw [hraw] at h
    cases h
    exact ⟨Std.Refl.refl _, rfl, rfl⟩
  | ok raw =>
  rw [hraw] at h
  obtain ⟨id, -, hr⟩ := ofMessage_ok hraw
  have hend : raw.endpoint.name = endpoint.name := by rw [hr]
  obtain ⟨b, u, hb, h1⟩ := bind_ok h
  have hlog := Inbound.logContains_ok hb
  have hu := (Inbound.logContains_untouched _ _).ok hb
  rw [← hend] at hlog
  cases b with
  | true =>
    cases h1
    refine ⟨hu.2, none, ?_, rfl⟩
    rw [hu.1]
    exact .known hlog
  | false =>
    obtain ⟨joined, v, hj, h2⟩ := bind_ok h1
    unfold joinedOf at hj
    split at hj
    · obtain ⟨payload, x, hp, h3⟩ := bind_ok hj
      obtain ⟨position, existing, hread, hsees, htake, htx, hx⟩ := Inbound.aggregate_ok hp
      rw [hu.1] at hsees htake htx
      rw [hu.2.chunks] at hsees
      cases payload with
      | none =>
        cases h3
        cases h2
        refine ⟨hu.2.trans hx, none, ?_, rfl⟩
        rw [htx]
        exact .held hlog hread hsees htake.symm
      | some payload =>
        cases h3
        cases h2
        refine ⟨hu.2.trans hx, some (payload, ChunkHeaders.remove raw.headers), ?_, by rw [hr]; rfl⟩
        have := Intake.joined hlog hread hsees htake.symm
        rw [← htx, hend] at this
        exact this
    · next hplain =>
      cases hj
      cases h2
      refine ⟨hu.2, some (raw.payload, raw.headers), ?_, by rw [hr]; rfl⟩
      change Intake _ _ _ _ _ (u.transaction.logged raw.messageId endpoint.name)
      rw [hu.1, ← hend]
      exact .plain hlog (by simpa using hplain)

/-- Settling fails only where a store has refused a look-up. -/
theorem one_error {endpoint : Endpoint} {m : RawMessage} {e : InboundError} {s t : Inbox κ}
    (h : one endpoint m s = .error e t) : e.Refused ∧ Untouched s t := by
  unfold one at h
  cases hraw : RawEnvelope.ofMessage endpoint m with
  | error e => rw [hraw] at h; cases h
  | ok raw =>
  rw [hraw] at h
  rcases bind_error h with hb | ⟨b, u, hb, h1⟩
  · exact Inbound.logContains_error hb
  have hu := (Inbound.logContains_untouched _ _).ok hb
  cases b with
  | true => cases h1
  | false =>
    rcases bind_error h1 with hj | ⟨joined, v, -, h2⟩
    · unfold joinedOf at hj
      split at hj
      · next hchunk =>
        obtain ⟨position, hread⟩ := isChunk_iff.mp hchunk
        rcases bind_error hj with hp | ⟨payload, x, -, h3⟩
        · obtain ⟨hrefused, ht⟩ := Inbound.aggregate_error hread hp
          exact ⟨hrefused, IsTrans.trans _ _ _ hu ht⟩
        · cases payload <;> cases h3
      · cases hj
    · cases joined <;> cases h2

theorem batch_ok {wire : Wire} {endpoint : Endpoint} {ms settled : List RawMessage} {tx : Transaction κ}
    {w w' : World κ} :
    batch wire endpoint ms w = .ok (settled, tx) w' ↔
      many endpoint ms ⟨{}, w⟩ = .ok settled ⟨tx, w'⟩ := by
  unfold batch
  cases many endpoint ms ⟨{}, w⟩ with
  | ok settled' t =>
    obtain ⟨tx', w''⟩ := t
    simp [and_assoc]
  | error e t => simp

end Settlement

/-- A message with a message id and with chunk headers that are absent or well formed. -/
def RawMessage.Readable (m : RawMessage) : Prop :=
  (∃ id, m.headers.get? Headers.messageId = some id) ∧
    ∃ position, ChunkHeaders.read m.headers = .ok position

theorem RawMessage.Readable.envelope {m : RawMessage} (h : m.Readable) (endpoint : Endpoint) :
    ∃ raw, RawEnvelope.ofMessage endpoint m = .ok raw := by
  obtain ⟨⟨id, hid⟩, -⟩ := h
  unfold RawEnvelope.ofMessage
  rw [hid]
  exact ⟨_, rfl⟩

end Relay
