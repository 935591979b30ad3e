import Mathlib.Data.List.Forall2
import Relay.Proofs.Headers
import Relay.Proofs.Intake
import Relay.Consumer.Attempt
/-!
# Settling agrees with the pipeline

A batch that is given up on is settled by code of its own, while a batch that is attempted runs
through the stages of the pipeline. `settle_agrees` says that the two take in the same messages,
in the same order and with the same payloads and headers, and leave the same transaction.

The proof relates two runs step by step. Two results `Agree` if both are successes with related
values or both the same failure; results may differ in kind only if the stores answer one call in
two ways, which `World.Steady` excludes. This matters because the pipeline looks up a completed
message twice and settling looks it up once.
-/
namespace Relay

open World (Alike Steady)

variable {κ ε σ τ α β γ δ : Type}

/-! ## Agreement of two runs -/

/-- Two results are both a success, with values related by `R`, or both the same failure, with
states related by `T`. Without `c` one may be a failure of its own. -/
def Agree (c : Prop) (T : σ → τ → Prop) (R : α → β → Prop) :
    EStateM.Result ε σ α → EStateM.Result ε τ β → Prop
  | .ok a s, .ok b t => R a b ∧ T s t
  | .error e s, .error f t => c → e = f ∧ T s t
  | _, _ => ¬ c

theorem agree_bind {c : Prop} {T T' : σ → τ → Prop} {R : α → β → Prop} {R' : γ → δ → Prop}
    {x : EStateM ε σ α} {y : EStateM ε τ β} {f : α → EStateM ε σ γ} {g : β → EStateM ε τ δ}
    {s : σ} {t : τ} (hT : ∀ s t, T s t → T' s t) (hx : Agree c T R (x s) (y t))
    (hf : ∀ a b s' t', x s = .ok a s' → y t = .ok b t' → R a b → T s' t' →
      Agree c T' R' (f a s') (g b t')) :
    Agree c T' R' ((x >>= f) s) ((y >>= g) t) := by
  cases hs : x s with
  | ok a s' =>
    cases ht : y t with
    | ok b t' =>
      rw [hs, ht] at hx
      rw [bind_of_ok hs, bind_of_ok ht]
      exact hf a b s' t' hs ht hx.1 hx.2
    | error e t' =>
      rw [hs, ht] at hx
      rw [bind_of_ok hs, bind_of_error ht]
      cases f a s' with
      | ok => exact hx
      | error => exact fun hc => absurd hc hx
  | error e s' =>
    cases ht : y t with
    | ok b t' =>
      rw [hs, ht] at hx
      rw [bind_of_error hs, bind_of_ok ht]
      cases g b t' with
      | ok => exact hx
      | error => exact fun hc => absurd hc hx
    | error f t' =>
      rw [hs, ht] at hx
      rw [bind_of_error hs, bind_of_error ht]
      exact fun hc => ⟨(hx hc).1, hT _ _ (hx hc).2⟩

/-! ## Look-ups in the stores -/

/-- Two worlds that look-ups have made of one. -/
def Siblings (w u v : World κ) : Prop := Alike w u ∧ Alike w v

theorem siblings_rules {w u v : World κ} (h : Siblings w u v) (hw : w.Steady) :
    u.rules = v.rules := (h.1.lasting hw).trans (h.2.lasting hw).symm

theorem agree_pure {w u v : World κ} (h : Siblings w u v) (a : α) :
    Agree w.Steady (Siblings w) Eq ((pure a : Op κ ε α) u) ((pure a : Op κ ε α) v) := ⟨rfl, h⟩

theorem ofExcept_agrees {w u v : World κ} (h : Siblings w u v) (r : Except ε α) :
    Agree w.Steady (Siblings w) Eq (Op.ofExcept r u) (Op.ofExcept r v) := by
  cases r with
  | ok a => exact ⟨rfl, h⟩
  | error e => exact fun _ => ⟨rfl, h⟩

theorem guardStore_eq (site : Site) (key : String) (w : World κ) :
    World.guardStore site key w =
      match (strike site key w.rules).1.asStore site with
      | some e => .error e { w with rules := (strike site key w.rules).2 }
      | none => .ok () { w with rules := (strike site key w.rules).2 } := by
  change (match (strike site key w.rules).1.asStore site with
    | some e => throw e
    | none => pure () : Op κ StoreError Unit) _ = _
  cases (strike site key w.rules).1.asStore site <;> rfl

theorem guardStore_agrees {w u v : World κ} (h : Siblings w u v) (site : Site) (key : String) :
    Agree w.Steady (Siblings w) Eq (World.guardStore site key u) (World.guardStore site key v) := by
  have huv : Siblings w { u with rules := (strike site key u.rules).2 }
      { v with rules := (strike site key v.rules).2 } :=
    ⟨h.1.trans (World.decide_alike (ε := StoreError) site key u),
      h.2.trans (World.decide_alike (ε := StoreError) site key v)⟩
  rw [guardStore_eq, guardStore_eq]
  cases hu : (strike site key u.rules).1.asStore site with
  | none =>
    cases hv : (strike site key v.rules).1.asStore site with
    | none => exact ⟨rfl, huv⟩
    | some f =>
      intro hw
      rw [siblings_rules h hw, hv] at hu
      cases hu
  | some e =>
    cases hv : (strike site key v.rules).1.asStore site with
    | none =>
      intro hw
      rw [siblings_rules h hw, hv] at hu
      cases hu
    | some f =>
      refine fun hw => ⟨?_, huv⟩
      rw [siblings_rules h hw, hv] at hu
      cases hu
      rfl

theorem logContains_agrees {w u v : World κ} (h : Siblings w u v) (id endpoint : String) :
    Agree w.Steady (Siblings w) Eq (World.logContains id endpoint u)
      (World.logContains id endpoint v) := by
  refine agree_bind (fun _ _ h => h) (guardStore_agrees h .logExists id) ?_
  intro _ _ u' v' _ _ _ h'
  rw [bind_get, bind_get, h'.1.log, h'.2.log]
  exact ofExcept_agrees h' _

theorem getChunks_agrees {w u v : World κ} (h : Siblings w u v) (id : String) :
    Agree w.Steady (Siblings w) Eq (World.getChunks id u) (World.getChunks id v) := by
  refine agree_bind (fun _ _ h => h) (guardStore_agrees h .chunksGet id) ?_
  intro _ _ u' v' _ _ _ h'
  rw [bind_get, bind_get, h'.1.chunks, h'.2.chunks]
  exact ofExcept_agrees h' _

theorem LogSession.contains_agrees {w u v : World κ} (h : Siblings w u v) (s : LogSession)
    (id endpoint : String) :
    Agree w.Steady (Siblings w) Eq (s.contains id endpoint u) (s.contains id endpoint v) := by
  unfold contains
  split
  · exact agree_pure h true
  · exact logContains_agrees h id endpoint

theorem mapError_agrees {w u v : World κ} {o : Op κ ε α} (f : ε → δ)
    (h : Agree w.Steady (Siblings w) Eq (o u) (o v)) :
    Agree w.Steady (Siblings w) Eq (Op.mapError f o u) (Op.mapError f o v) := by
  unfold Op.mapError
  cases hu : o u <;> cases hv : o v <;> rw [hu, hv] at h
  · exact h
  · exact h
  · exact h
  · exact fun hw => ⟨congrArg f (h hw).1, (h hw).2⟩

theorem ChunkSession.get_agrees {w u v : World κ} (h : Siblings w u v) (s : ChunkSession)
    (id : String) :
    Agree w.Steady (Siblings w) Eq (s.get id u) (s.get id v) := by
  rw [get_eq]
  refine agree_bind (R := Eq) (fun _ _ h => h) ?_ ?_
  · split
    · exact agree_pure h []
    · exact getChunks_agrees h id
  · rintro a _ u' v' _ _ rfl h'
    exact agree_pure h' _

theorem ChunkSession.aggregate_agrees {w u v : World κ} (h : Siblings w u v) (s : ChunkSession)
    (id : String) (headers : Headers) (payload : Bytes) :
    Agree w.Steady (Siblings w) Eq (s.aggregate id headers payload u)
      (s.aggregate id headers payload v) := by
  unfold aggregate
  refine agree_bind (fun _ _ h => h) (ofExcept_agrees h _) ?_
  rintro position _ u' v' _ _ rfl h'
  cases position with
  | none => exact fun _ => ⟨rfl, h'⟩
  | some position =>
    refine agree_bind (fun _ _ h => h) (mapError_agrees _ (get_agrees h' s id)) ?_
    rintro existing _ u'' v'' _ _ rfl h''
    cases arrive existing id position payload <;> exact agree_pure h'' _

/-! ## Steps of inbound processing -/

/-- Two inboxes with one transaction, in worlds that look-ups have made of one. -/
structure Twins (w : World κ) (s t : Inbox κ) : Prop where
  transaction : s.transaction = t.transaction
  worlds : Siblings w s.world t.world

theorem onWorld_agrees {w : World κ} {s t : Inbox κ} {o : Op κ ε α} (f : ε → InboundError)
    (h : Twins w s t) (ho : Agree w.Steady (Siblings w) Eq (o s.world) (o t.world)) :
    Agree w.Steady (Twins w) Eq (Inbound.onWorld f o s) (Inbound.onWorld f o t) := by
  unfold Inbound.onWorld
  cases hs : o s.world <;> cases ht : o t.world <;> rw [hs, ht] at ho
  · exact ⟨ho.1, h.transaction, ho.2⟩
  · exact ho
  · exact ho
  · exact fun hw => ⟨congrArg f (ho hw).1, h.transaction, (ho hw).2⟩

theorem Inbound.logContains_agrees {w : World κ} {s t : Inbox κ} (h : Twins w s t)
    (id endpoint : String) :
    Agree w.Steady (Twins w) Eq (logContains id endpoint s) (logContains id endpoint t) := by
  unfold logContains
  rw [bind_get, bind_get, h.transaction]
  exact onWorld_agrees _ h (LogSession.contains_agrees h.worlds _ _ _)

theorem Inbound.aggregate_agrees {w : World κ} {s t : Inbox κ} (h : Twins w s t)
    (raw : RawEnvelope) :
    Agree w.Steady (Twins w) Eq (aggregate raw s) (aggregate raw t) := by
  rw [aggregate_eq, aggregate_eq, h.transaction]
  refine agree_bind (fun _ _ h => h)
    (onWorld_agrees _ h (ChunkSession.aggregate_agrees h.worlds _ _ _ _)) ?_
  rintro r _ s' t' _ _ rfl h'
  exact ⟨rfl, by rw [h'.transaction], h'.worlds⟩

theorem Inbound.logAdd_agrees {w : World κ} {s t : Inbox κ} (h : Twins w s t)
    (id endpoint : String) :
    Agree w.Steady (Twins w) Eq (logAdd id endpoint s) (logAdd id endpoint t) :=
  ⟨rfl, by simp only [h.transaction], h.worlds⟩

/-! ## The stages before decryption -/

/-- The stages before decryption, on their own. -/
def Pipeline.front : Pipeline κ := ⟨[.chunkAggregation, .deduplication]⟩

/-- The settled messages are those of the envelopes that the stages before decryption hand on, in
the same order. -/
def Handed (endpoint : Endpoint) : List RawMessage → List Message → Prop :=
  List.Forall₂ fun m handed =>
    ∃ raw, RawEnvelope.ofMessage endpoint m = .ok raw ∧ handed = .inbound raw none true

namespace Pipeline

theorem front_plain {raw : RawEnvelope} (h : ChunkHeaders.read raw.headers = .ok none) :
    (front.process raw : Inbound κ _) =
      Inbound.logContains raw.messageId raw.endpoint.name >>= fun known =>
        if known then pure none else
          Inbound.logAdd raw.messageId raw.endpoint.name >>= fun _ =>
            pure (some (.inbound raw none true)) := by
  change Inbound.ofExcept .chunk (ChunkHeaders.read raw.headers) >>= _ >>= _ = _
  rw [h]
  change (Inbound.logContains raw.messageId raw.endpoint.name >>= _) >>= _ = _
  rw [bind_assoc]
  congr 1
  funext known
  cases known <;> rfl

theorem front_chunk {raw : RawEnvelope} {position : ChunkHeaders}
    (h : ChunkHeaders.read raw.headers = .ok (some position)) :
    (front.process raw : Inbound κ _) =
      Inbound.logContains raw.messageId raw.endpoint.name >>= fun known =>
        if known then pure none else Inbound.aggregate raw >>= fun joined =>
          match joined with
          | none => pure none
          | some payload =>
            Inbound.logContains raw.messageId raw.endpoint.name >>= fun known =>
              if known then pure none else
                Inbound.logAdd raw.messageId raw.endpoint.name >>= fun _ =>
                  pure (some (.inbound
                    { raw with payload, headers := ChunkHeaders.remove raw.headers } none true)) := by
  change Inbound.ofExcept .chunk (ChunkHeaders.read raw.headers) >>= _ >>= _ = _
  rw [h]
  change (Inbound.logContains raw.messageId raw.endpoint.name >>= _) >>= _ = _
  rw [bind_assoc]
  congr 1
  funext known
  cases known with
  | true => rfl
  | false =>
    change (Inbound.aggregate raw >>= _) >>= _ = Inbound.aggregate raw >>= _
    rw [bind_assoc]
    congr 1
    funext joined
    cases joined with
    | none => rfl
    | some payload =>
      change (Inbound.logContains raw.messageId raw.endpoint.name >>= _) >>= _ = _
      rw [bind_assoc]
      congr 1
      funext known
      cases known <;> rfl

/-- A passage that deduplication lets through goes on to the other stages as it is. -/
theorem deduplication_front {p : Passage} (hp : p.accepted = false) (next : Passing κ) :
    Stage.deduplication.handle next p =
      Stage.deduplication.handle (run []) p >>= fun q =>
        if q.accepted then next { q with accepted := false } else pure q := by
  obtain ⟨env, m, a⟩ := p
  cases hp
  change Inbound.logContains env.messageId env.endpoint.name >>= _ =
    (Inbound.logContains env.messageId env.endpoint.name >>= _) >>= _
  rw [bind_assoc]
  congr 1
  funext known
  cases known <;> rfl

/-- What the stages before decryption hand on goes through the others, and nothing else does. -/
theorem run_front (rest : List (Stage κ)) (raw : RawEnvelope) :
    run (.chunkAggregation :: .deduplication :: rest) { envelope := raw } =
      run front.stages { envelope := raw } >>= fun q =>
        if q.accepted then run rest { q with accepted := false } else pure q := by
  change Inbound.ofExcept .chunk (ChunkHeaders.read raw.headers) >>= _ =
    (Inbound.ofExcept .chunk (ChunkHeaders.read raw.headers) >>= _) >>= _
  rw [bind_assoc]
  congr 1
  funext position
  cases position with
  | none => exact deduplication_front rfl (run rest)
  | some position =>
    change Inbound.logContains raw.messageId raw.endpoint.name >>= _ =
      (Inbound.logContains raw.messageId raw.endpoint.name >>= _) >>= _
    rw [bind_assoc]
    congr 1
    funext known
    cases known with
    | true => rfl
    | false =>
      change Inbound.aggregate raw >>= _ = (Inbound.aggregate raw >>= _) >>= _
      rw [bind_assoc]
      congr 1
      funext joined
      cases joined with
      | none => rfl
      | some payload => exact deduplication_front rfl (run rest)

end Pipeline

/-- The first message of a batch, then the others. -/
theorem Attempt.prepare_cons (p : Pipeline κ) {endpoint : Endpoint} {m : RawMessage}
    {raw : RawEnvelope} (hraw : RawEnvelope.ofMessage endpoint m = .ok raw) (ms : List RawMessage) :
    prepare p endpoint (m :: ms) = p.process raw >>= fun first =>
      prepare p endpoint ms >>= fun rest => pure (first.toList ++ rest) := by
  rw [prepare, hraw]
  rfl

namespace Settlement

variable {endpoint : Endpoint} {m : RawMessage} {raw : RawEnvelope}

theorem one_plain (h : RawEnvelope.ofMessage endpoint m = .ok raw)
    (hread : isChunk raw.headers = false) :
    (one endpoint m : Inbound κ _) =
      Inbound.logContains raw.messageId endpoint.name >>= fun known =>
        if known then pure none else
          Inbound.logAdd raw.messageId endpoint.name >>= fun _ => pure (some m) := by
  unfold one joinedOf
  rw [h]
  simp only [hread]
  rfl

theorem one_chunk (h : RawEnvelope.ofMessage endpoint m = .ok raw)
    (hread : isChunk raw.headers = true) :
    (one endpoint m : Inbound κ _) =
      Inbound.logContains raw.messageId endpoint.name >>= fun known =>
        if known then pure none else Inbound.aggregate raw >>= fun joined =>
          match joined with
          | none => pure none
          | some payload =>
            Inbound.logAdd raw.messageId endpoint.name >>= fun _ =>
              pure (some { m with payload, headers := ChunkHeaders.remove m.headers }) := by
  unfold one joinedOf
  rw [h]
  simp only [hread]
  congr 1
  funext known
  cases known with
  | true => rfl
  | false =>
    change (Inbound.aggregate raw >>= _) >>= _ = _
    rw [bind_assoc]
    congr 1
    funext joined
    cases joined <;> rfl

/-- The second look-up of a message answers what the first one did, or is refused. -/
theorem logContains_again {w : World κ} {s s' t : Inbox κ} {id ep : String} {b : Bool}
    (hw : Siblings w s.world t.world) (hlog : s.transaction.log = t.transaction.log)
    (hs : Inbound.logContains id ep s = .ok b s') :
    (∃ t', Inbound.logContains id ep t = .ok b t' ∧ Untouched t t') ∨
      (¬ w.Steady ∧ ∃ e t', Inbound.logContains id ep t = .error e t') := by
  have hu := (Inbound.onWorld_ok.mp hs).1
  have hag := LogSession.contains_agrees hw s.transaction.log id ep
  rw [hu] at hag
  cases ht : Inbound.logContains id ep t with
  | ok b' t' =>
    rw [hlog, (Inbound.onWorld_ok.mp ht).1] at hag
    exact Or.inl ⟨t', by rw [hag.1], (Inbound.logContains_untouched id ep).ok ht⟩
  | error e t' =>
    obtain ⟨e', he, -, -⟩ := Inbound.onWorld_error.mp ht
    rw [hlog, he] at hag
    exact Or.inr ⟨hag, e, t', rfl⟩

/-- Settling a message and running it through the stages before decryption agree. -/
theorem one_agrees {w : World κ} {s t : Inbox κ} (h : Twins w s t)
    (hraw : RawEnvelope.ofMessage endpoint m = .ok raw) {position : Option ChunkHeaders}
    (hread : ChunkHeaders.read m.headers = .ok position) :
    Agree w.Steady (Twins w) (fun r r' => Handed endpoint r.toList r'.toList)
      (one endpoint m s) (Pipeline.front.process raw t) := by
  obtain ⟨id, hid, rfl⟩ := ofMessage_ok hraw
  cases position with
  | none =>
    rw [one_plain hraw (by simp [isChunk, hread]), Pipeline.front_plain hread]
    refine agree_bind (fun _ _ h => h) (Inbound.logContains_agrees h _ _) ?_
    rintro known _ s' t' _ _ rfl h'
    cases known with
    | true => exact ⟨.nil, h'⟩
    | false =>
      refine agree_bind (fun _ _ h => h) (Inbound.logAdd_agrees h' _ _) ?_
      rintro _ _ s'' t'' _ _ _ h''
      exact ⟨.cons ⟨_, hraw, rfl⟩ .nil, h''⟩
  | some position =>
    rw [one_chunk hraw (by simp [isChunk, hread]), Pipeline.front_chunk hread]
    refine agree_bind (fun _ _ h => h) (Inbound.logContains_agrees h _ _) ?_
    rintro known _ s' t' hs ht rfl h'
    cases known with
    | true => exact ⟨.nil, h'⟩
    | false =>
      refine agree_bind (fun _ _ h => h) (Inbound.aggregate_agrees h' _) ?_
      rintro joined _ s'' t'' hs' ht' rfl h''
      cases joined with
      | none => exact ⟨.nil, h''⟩
      | some payload =>
        have hlog : s.transaction.log = t''.transaction.log := by
          obtain ⟨_, _, -, -, -, htx, -⟩ := Inbound.aggregate_ok ht'
          rw [htx, ((Inbound.logContains_untouched _ _).ok ht).1, h.transaction]
        have hjoined : Handed endpoint
            [{ m with payload, headers := ChunkHeaders.remove m.headers }]
            [.inbound ⟨payload, ChunkHeaders.remove m.headers, endpoint, m.offset, id⟩ none true] := by
          refine .cons ⟨_, ?_, rfl⟩ .nil
          unfold RawEnvelope.ofMessage
          simp only [ChunkHeaders.messageId_remove, hid]
        -- only the pipeline looks the message up again
        rcases logContains_again ⟨h.worlds.1, h''.worlds.2⟩ hlog hs with
          ⟨t3, ht3, hsame⟩ | ⟨hw, e, t3, ht3⟩
        · have h3 : Twins w s'' t3 :=
            ⟨by rw [hsame.1, h''.transaction], h''.worlds.1, h''.worlds.2.trans hsame.2⟩
          dsimp only
          rw [bind_of_ok ht3]
          refine agree_bind (fun _ _ h => h) (Inbound.logAdd_agrees h3 _ _) ?_
          rintro _ _ s4 t4 _ _ _ h4
          exact ⟨hjoined, h4⟩
        · dsimp only
          rw [bind_of_error ht3]
          exact hw

theorem many_agrees {w : World κ} {s t : Inbox κ} (h : Twins w s t) {ms : List RawMessage}
    (hms : ∀ m ∈ ms, m.Readable) :
    Agree w.Steady (Twins w) (Handed endpoint)
      (many endpoint ms s) (Attempt.prepare Pipeline.front endpoint ms t) := by
  induction ms generalizing s t with
  | nil => exact ⟨.nil, h⟩
  | cons m ms ih =>
    have hm := hms m List.mem_cons_self
    obtain ⟨raw, hraw⟩ := hm.envelope endpoint
    obtain ⟨-, position, hread⟩ := hm
    rw [Attempt.prepare_cons _ hraw]
    refine agree_bind (fun _ _ h => h) (one_agrees h hraw hread) ?_
    intro a b s' t' _ _ hab h'
    refine agree_bind (fun _ _ h => h)
      (ih h' fun m hm => hms m (List.mem_cons_of_mem _ hm)) ?_
    intro as bs s'' t'' _ _ habs h''
    exact ⟨List.rel_append hab habs, h''⟩

/-- **Settling agrees with the pipeline.** In every state of a transaction, over every content of
the stores and whichever of them fail, a readable message comes out of settling exactly if the
stages before decryption hand it on, then with the payload and the headers of the envelope they
hand on, and the transactions left are equal, its pending log entries, pending chunks and cleaned
ids with them; so it is for a list of messages, in order, and with it for a settled batch.
The two may part only where a store refuses one of two equal calls. -/
theorem settle_agrees (wire : Wire) (endpoint : Endpoint) :
    (∀ (s : Inbox κ) (m : RawMessage) (raw : RawEnvelope),
      RawEnvelope.ofMessage endpoint m = .ok raw →
      (∃ position, ChunkHeaders.read m.headers = .ok position) →
      Agree s.world.Steady (Twins s.world) (fun r r' => Handed endpoint r.toList r'.toList)
        (one endpoint m s) (Pipeline.front.process raw s)) ∧
    (∀ (s : Inbox κ) (ms : List RawMessage), (∀ m ∈ ms, m.Readable) →
      Agree s.world.Steady (Twins s.world) (Handed endpoint)
        (many endpoint ms s) (Attempt.prepare Pipeline.front endpoint ms s)) ∧
    (∀ (w w' : World κ) (ms settled : List RawMessage) (tx : Transaction κ),
      batch wire endpoint ms w = .ok (settled, tx) w' ↔
        many endpoint ms ⟨{}, w⟩ = .ok settled ⟨tx, w'⟩) := by
  have htwins : ∀ s : Inbox κ, Twins s.world s s :=
    fun s => ⟨rfl, Std.Refl.refl _, Std.Refl.refl _⟩
  refine ⟨?_, ?_, ?_⟩
  · rintro s m raw hraw ⟨position, hread⟩
    exact one_agrees (htwins s) hraw hread
  · intro s ms hms
    exact many_agrees (htwins s) hms
  · intro w w' ms settled tx
    exact batch_ok

/-! ### A batch of all kinds of messages -/

/-- A message with an id and the position of a chunk, if it is given one. -/
def letter (id : String) (position : Option (String × String)) (content : UInt8)
    (offset : String) : RawMessage where
  payload := [content]
  headers := ⟨(Headers.messageId, id) :: match position with
    | none => []
    | some (index, count) => [(Headers.chunkIndex, index), (Headers.chunksCount, count)]⟩
  offset := some offset

/-- A message that the log has, one that the transaction has logged, another one twice, chunks that
complete a set of which one is in the store and a set of which one waits in the transaction, and the
first chunk of a set. -/
def assortment : List RawMessage :=
  [letter "z" none 1 "0", letter "y" none 2 "1", letter "a" none 3 "2", letter "a" none 3 "3",
    letter "s" (some ("1", "2")) 5 "4", letter "v" (some ("0", "2")) 6 "5",
    letter "t" (some ("0", "2")) 8 "6"]

/-- A transaction that has logged a message and parked a chunk, over stores that are not empty. -/
def midway : Inbox Unit where
  transaction := { log := ⟨[⟨"y", "orders"⟩]⟩, chunks := ⟨[⟨"v", 1, 2, [7]⟩], []⟩ }
  world :=
    { World.create .memory with
      log := .memory [⟨"z", "orders"⟩]
      chunks := .memory [⟨"s", 0, 2, [4]⟩, ⟨"u", 0, 2, [9]⟩] }


theorem assortment_readable : ∀ m ∈ assortment, m.Readable := by
  intro m hm
  unfold assortment at hm
  simp only [List.mem_cons, List.not_mem_nil, or_false] at hm
  rcases hm with rfl | rfl | rfl | rfl | rfl | rfl | rfl
  all_goals refine ⟨⟨_, rfl⟩, ?_⟩
  · exact ⟨none, rfl⟩
  · exact ⟨none, rfl⟩
  · exact ⟨none, rfl⟩
  · exact ⟨none, rfl⟩
  · exact ⟨some ⟨1, 2⟩, rfl⟩
  · exact ⟨some ⟨0, 2⟩, rfl⟩
  · exact ⟨some ⟨0, 2⟩, rfl⟩

/-- What has come of settling: the headers and the offsets of the messages, and in the transaction the
ids to be logged, the chunks to be parked and the ids of the sets to be removed. -/
def tally : EStateM.Result InboundError (Inbox Unit) (List RawMessage) →
    Option (List (Headers × Option String) × List String × List Chunk × List String)
  | .ok settled s => some (settled.map fun m => (m.headers, m.offset),
      s.transaction.log.pending.map LogEntry.messageId, s.transaction.chunks.stored,
      s.transaction.chunks.cleaned)
  | .error _ _ => none

/-- Settling and the stages before decryption make the same of it: a message in one piece and two
joined ones, and a chunk that is parked. -/
theorem settle_agrees_assortment :
    let endpoint : Endpoint := ⟨"orders", none, []⟩
    ∃ settled s handed t, many endpoint assortment midway = .ok settled s ∧
      Attempt.prepare Pipeline.front endpoint assortment midway = .ok handed t ∧
      Handed endpoint settled handed ∧ s.transaction = t.transaction ∧
      tally (.ok settled s) =
        some ([(⟨[(Headers.messageId, "a")]⟩, some "2"), (⟨[(Headers.messageId, "s")]⟩, some "4"),
            (⟨[(Headers.messageId, "v")]⟩, some "5")],
          ["y", "a", "s", "v"], [⟨"t", 0, 2, [8]⟩], ["s", "v"]) := by
  intro endpoint
  have hsteady : midway.world.Steady := fun _ _ => rfl
  have htally : tally (many endpoint assortment midway) =
      some ([(⟨[(Headers.messageId, "a")]⟩, some "2"), (⟨[(Headers.messageId, "s")]⟩, some "4"),
          (⟨[(Headers.messageId, "v")]⟩, some "5")],
        ["y", "a", "s", "v"], [⟨"t", 0, 2, [8]⟩], ["s", "v"]) := by
    decide +kernel
  have hread := assortment_readable
  obtain ⟨-, hmany, -⟩ := settle_agrees (κ := Unit) ⟨.empty, none⟩ endpoint
  -- nothing more is to be computed from here on
  generalize midway = s, assortment = ms at *
  specialize hmany s ms hread
  generalize many endpoint ms s = r, Attempt.prepare Pipeline.front endpoint ms s = r' at *
  cases r with
  | error e s => cases htally
  | ok settled s =>
    cases r' with
    | error e t => exact absurd hsteady hmany
    | ok handed t => exact ⟨settled, s, handed, t, rfl, rfl, hmany.1, hmany.2.transaction, htally⟩

end Settlement
end Relay
