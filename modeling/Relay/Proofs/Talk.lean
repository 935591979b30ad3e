import Relay.Proofs.Acceptance
import Relay.Proofs.Dialogue
/-!
# A transaction as a dialogue

What a transaction does to a batch is put here in terms of the calls that it makes: `Talk` is a step of
inbound processing that keeps what the transaction buffers and asks the stores for the rest, and
`Dialogue.transact` runs a batch through the pipeline and commits what was buffered. `Follows` ties a
step of inbound processing to the talk that it is, one lemma a stage, and `run_transact` says that the
dialogue, run by itself, is what a consumer does with a batch in a transaction of its own.
-/
namespace Relay

variable {κ α β : Type}

/-- What a transaction buffers for the stores. -/
structure Buffers where
  log : LogSession := {}
  chunks : ChunkSession := {}

def Transaction.buffers (tx : Transaction κ) : Buffers := ⟨tx.log, tx.chunks⟩

/-- The transaction with these buffers. -/
def Transaction.buffering (tx : Transaction κ) (b : Buffers) : Transaction κ :=
  { tx with log := b.log, chunks := b.chunks }

/-- A step of inbound processing as a dialogue. -/
abbrev Talk := StateT Buffers Dialogue

namespace Talk

def ask (refuse : StoreError → InboundError) (c : StoreCall) : Talk c.Answer :=
  StateT.lift (Dialogue.ask refuse c)

def fail (e : InboundError) : Talk α := StateT.lift (Dialogue.fail e)

def ofExcept : Except InboundError α → Talk α
  | .ok a => pure a
  | .error e => fail e

def logContains (id endpoint : String) : Talk Bool := fun b =>
  if b.log.pending.contains ⟨id, endpoint⟩ then .done (true, b)
  else ask .store (.known ⟨id, endpoint⟩) b

def logAdd (id endpoint : String) : Talk Unit := modify fun b =>
  { b with log := b.log.add ⟨id, endpoint⟩ }

/-- The chunks of a message in the store, none if its set is cleaned up. -/
def partsOf (id : String) : Talk (List Chunk) := fun b =>
  if b.chunks.cleaned.contains id then .done ([], b)
  else ask (fun e => .chunk (.store e)) (.parts id) b

def aggregate (raw : RawEnvelope) (position : ChunkHeaders) : Talk (Option Bytes) := do
  let committed ← partsOf raw.messageId
  modifyGet fun b =>
    let existing := committed ++ b.chunks.pendingFor raw.messageId
    let r := b.chunks.take existing raw.messageId position raw.payload
    (r.1, { b with chunks := r.2 })

/-- Decryption and deserialization. -/
def unpack (wire : Wire) (p : Passage) : Talk Passage := do
  let (payload, m) ← ofExcept (wire.unpack p.envelope.payload p.envelope.headers)
  return ⟨{ p.envelope with payload }, some m, true⟩

def deduplication (next : Passage → Talk Passage) (p : Passage) : Talk Passage := do
  if ← logContains p.envelope.messageId p.envelope.endpoint.name then return p
  logAdd p.envelope.messageId p.envelope.endpoint.name
  next p

def chunkAggregation (next : Passage → Talk Passage) (p : Passage) : Talk Passage := do
  match ← ofExcept ((ChunkHeaders.read p.envelope.headers).mapError .chunk) with
  | none => next p
  | some position =>
    if ← logContains p.envelope.messageId p.envelope.endpoint.name then return p
    match ← aggregate p.envelope position with
    | none => return p
    | some payload =>
      next { p with envelope := { p.envelope with
        payload, headers := ChunkHeaders.remove p.envelope.headers } }

/-- Runs a message through the pipeline. -/
def process (wire : Wire) (raw : RawEnvelope) : Talk (Option Message) := do
  let r ← chunkAggregation (deduplication (unpack wire)) { envelope := raw }
  return if r.accepted then some (.inbound r.envelope r.message true) else none

/-- Runs the messages through the pipeline, in order. -/
def prepare (wire : Wire) (endpoint : Endpoint) : List RawMessage → Talk (List Message)
  | [] => return []
  | m :: ms => do
    let raw ← ofExcept ((RawEnvelope.ofMessage endpoint m).mapError .envelope)
    let first ← process wire raw
    let rest ← prepare wire endpoint ms
    return first.toList ++ rest

end Talk

/-- A write, unless there is nothing to it. -/
def Dialogue.write (idle : Bool) (c : StoreCall) : Dialogue Unit :=
  if idle then .done () else .call .store c fun _ => .done ()

/-- Writes what is buffered: the log, then the sets that are cleaned up, then the chunks. -/
def Buffers.commit (b : Buffers) : Dialogue Unit := do
  .write b.log.pending.isEmpty (.append b.log.pending)
  .write b.chunks.cleaned.isEmpty (.clean b.chunks.cleaned)
  .write b.chunks.stored.isEmpty (.park b.chunks.stored)

/-- Runs a batch through the pipeline in a transaction of its own. -/
def Dialogue.transact (wire : Wire) (endpoint : Endpoint) (ms : List RawMessage) :
    Dialogue (List Message) := do
  let (out, b) ← Talk.prepare wire endpoint ms {}
  b.commit
  return out

/-! ## The stages -/

/-- The step does to the stores what the talk does, and to the buffers; where it fails, nothing was
enlisted on the way. -/
structure Follows (o : Inbound κ α) (t : Talk α) : Prop where
  ok : ∀ {s : Inbox κ} {a : α} {b : Buffers} {w : World κ},
    (t s.transaction.buffers).run s.world = .ok (a, b) w → o s = .ok a ⟨s.transaction.buffering b, w⟩
  error : ∀ {s : Inbox κ} {e : InboundError} {w : World κ},
    (t s.transaction.buffers).run s.world = .error e w →
      ∃ tx, o s = .error e ⟨tx, w⟩ ∧ tx.resources = s.transaction.resources

theorem follows_pure (a : α) : Follows (pure a : Inbound κ α) (pure a) where
  ok h := by cases h; rfl
  error h := by cases h

theorem follows_fail (e : InboundError) : Follows (throw e : Inbound κ α) (Talk.fail e) where
  ok h := by cases h
  error h := by cases h; exact ⟨_, rfl, rfl⟩

theorem Follows.bind {o : Inbound κ α} {t : Talk α} {g : α → Inbound κ β} {f : α → Talk β}
    (h : Follows o t) (hg : ∀ a, Follows (g a) (f a)) : Follows (o >>= g) (t >>= f) where
  ok {s a b w} hr := by
    change ((t s.transaction.buffers >>= fun p => f p.1 p.2).run : Op κ _ _) s.world = _ at hr
    rw [Dialogue.run_bind] at hr
    obtain ⟨⟨x, c⟩, u, hx, h1⟩ := bind_ok hr
    rw [bind_of_ok (h.ok hx)]
    exact (hg x).ok (s := ⟨s.transaction.buffering c, u⟩) h1
  error {s e w} hr := by
    change ((t s.transaction.buffers >>= fun p => f p.1 p.2).run : Op κ _ _) s.world = _ at hr
    rw [Dialogue.run_bind] at hr
    rcases bind_error hr with hx | ⟨⟨x, c⟩, u, hx, h1⟩
    · obtain ⟨tx, htx, hres⟩ := h.error hx
      exact ⟨tx, bind_of_error htx, hres⟩
    · obtain ⟨tx, htx, hres⟩ := (hg x).error (s := ⟨s.transaction.buffering c, u⟩) h1
      exact ⟨tx, (bind_of_ok (h.ok hx)).trans htx, hres⟩

/-- What is done next may depend on the value that there is. -/
theorem Follows.bind_ofExcept {ε : Type} {e : ε → InboundError} {r : Except ε α}
    {g : α → Inbound κ β} {f : α → Talk β} (h : ∀ a, r = .ok a → Follows (g a) (f a)) :
    Follows (Inbound.ofExcept e r >>= g) (Talk.ofExcept (r.mapError e) >>= f) := by
  cases r with
  | ok a => exact h a rfl
  | error x => exact follows_fail (e x)

/-- The outcome of a talk as that of a step which keeps the transaction where it fails. -/
def Transaction.outcome (tx : Transaction κ) :
    EStateM.Result InboundError (World κ) (α × Buffers) → EStateM.Result InboundError (Inbox κ) α
  | .ok (a, b) w => .ok a ⟨tx.buffering b, w⟩
  | .error e w => .error e ⟨tx, w⟩

theorem follows_of_outcome {o : Inbound κ α} {t : Talk α}
    (h : ∀ s, o s = s.transaction.outcome ((t s.transaction.buffers).run s.world)) : Follows o t where
  ok {s a b w} hr := by rw [h, hr]; rfl
  error {s e w} hr := ⟨s.transaction, by rw [h, hr]; rfl, rfl⟩

theorem ask_outcome (f : StoreError → InboundError) (c : StoreCall) (s : Inbox κ) :
    Inbound.onWorld f c.op s =
      s.transaction.outcome ((Talk.ask f c s.transaction.buffers).run s.world) := by
  change _ = s.transaction.outcome ((Op.mapError f c.op >>= fun x =>
    pure (x, s.transaction.buffers) : Op κ InboundError (c.Answer × Buffers)) s.world)
  unfold Inbound.onWorld
  cases hc : (c.op : Op κ StoreError c.Answer) s.world with
  | ok x w => rw [bind_of_ok (Op.mapError_ok.mpr hc)]; rfl
  | error e w => rw [bind_of_error (Op.mapError_error.mpr ⟨e, hc, rfl⟩)]; rfl

theorem logContains_follows (id endpoint : String) :
    Follows (Inbound.logContains id endpoint : Inbound κ Bool) (Talk.logContains id endpoint) := by
  refine follows_of_outcome fun s => ?_
  change Inbound.onWorld .store (s.transaction.log.contains id endpoint) s = _
  by_cases hp : s.transaction.log.pending.contains ⟨id, endpoint⟩ = true
  · have ho : s.transaction.log.contains id endpoint = (pure true : Op κ StoreError Bool) := if_pos hp
    have ht : Talk.logContains id endpoint s.transaction.buffers = _ := if_pos hp
    rw [ho, ht]
    rfl
  · have ho : s.transaction.log.contains id endpoint =
        (World.logContains id endpoint : Op κ StoreError Bool) := if_neg hp
    have ht : Talk.logContains id endpoint s.transaction.buffers = _ := if_neg hp
    rw [ho, ht]
    exact ask_outcome .store (.known ⟨id, endpoint⟩) s

theorem logAdd_follows (id endpoint : String) :
    Follows (Inbound.logAdd id endpoint : Inbound κ Unit) (Talk.logAdd id endpoint) :=
  follows_of_outcome fun _ => rfl

theorem Inbound.aggregate_got {raw : RawEnvelope} {position : ChunkHeaders} {s : Inbox κ}
    (hread : ChunkHeaders.read raw.headers = .ok (some position)) {existing : List Chunk} {w : World κ}
    (hg : s.transaction.chunks.get raw.messageId s.world = .ok existing w) :
    aggregate raw s =
      let r := s.transaction.chunks.take existing raw.messageId position raw.payload
      .ok r.1 ⟨{ s.transaction with chunks := r.2 }, w⟩ := by
  have hagg : s.transaction.chunks.aggregate raw.messageId raw.headers raw.payload s.world =
      .ok (s.transaction.chunks.take existing raw.messageId position raw.payload) w := by
    rw [ChunkSession.aggregate_read hread]
    exact bind_of_ok (Op.mapError_ok.mpr hg)
  have hon : onWorld .chunk _ s = .ok _ ⟨s.transaction, w⟩ := onWorld_ok.mpr ⟨hagg, rfl⟩
  rw [aggregate_eq]
  exact bind_of_ok hon

/-- The chunks of a message in the store, as a session asks for them. -/
def Inbound.partsOf (id : String) : Inbound κ (List Chunk) := fun s =>
  if s.transaction.chunks.cleaned.contains id then .ok [] s
  else Inbound.onWorld (fun e => .chunk (.store e)) (World.getChunks id) s

theorem partsOf_follows (id : String) :
    Follows (Inbound.partsOf id : Inbound κ (List Chunk)) (Talk.partsOf id) := by
  refine follows_of_outcome fun s => ?_
  by_cases hc : s.transaction.chunks.cleaned.contains id = true
  · have ho : Inbound.partsOf id s = .ok [] s := if_pos hc
    have ht : Talk.partsOf id s.transaction.buffers = _ := if_pos hc
    rw [ho, ht]
    rfl
  · have ho : Inbound.partsOf id s = _ := if_neg hc
    have ht : Talk.partsOf id s.transaction.buffers = _ := if_neg hc
    rw [ho, ht]
    exact ask_outcome (fun e => .chunk (.store e)) (.parts id) s

theorem Inbound.aggregate_parts {raw : RawEnvelope} {position : ChunkHeaders}
    (hread : ChunkHeaders.read raw.headers = .ok (some position)) :
    (Inbound.aggregate raw : Inbound κ (Option Bytes)) =
      Inbound.partsOf raw.messageId >>= fun committed => modifyGet fun s =>
        let session := s.transaction.chunks
        let r := session.take (committed ++ session.pendingFor raw.messageId) raw.messageId position
          raw.payload
        (r.1, { s with transaction := { s.transaction with chunks := r.2 } }) := by
  funext s
  have hget := s.transaction.chunks.get_eq (κ := κ) raw.messageId
  by_cases hc : s.transaction.chunks.cleaned.contains raw.messageId = true
  · have hparts : Inbound.partsOf raw.messageId s = .ok [] s := if_pos hc
    rw [if_pos hc] at hget
    rw [bind_of_ok hparts]
    exact aggregate_got hread (congrFun hget _)
  · have hparts : Inbound.partsOf raw.messageId s = _ := if_neg hc
    rw [if_neg hc] at hget
    cases hg : World.getChunks raw.messageId s.world with
    | ok committed w =>
      have hon : onWorld (fun e => .chunk (.store e)) (World.getChunks raw.messageId) s =
          .ok committed ⟨s.transaction, w⟩ := onWorld_ok.mpr ⟨hg, rfl⟩
      rw [bind_of_ok (hparts.trans hon)]
      exact aggregate_got hread ((congrFun hget _).trans (bind_of_ok hg))
    | error e w =>
      have hon : onWorld (fun e => .chunk (.store e)) (World.getChunks raw.messageId) s =
          .error (.chunk (.store e)) ⟨s.transaction, w⟩ := onWorld_error.mpr ⟨e, hg, rfl, rfl⟩
      rw [bind_of_error (hparts.trans hon)]
      exact aggregate_denied hread ((congrFun hget _).trans (bind_of_error hg))

theorem aggregate_follows {raw : RawEnvelope} {position : ChunkHeaders}
    (hread : ChunkHeaders.read raw.headers = .ok (some position)) :
    Follows (Inbound.aggregate raw : Inbound κ (Option Bytes)) (Talk.aggregate raw position) := by
  rw [Inbound.aggregate_parts hread]
  exact (partsOf_follows _).bind fun committed => follows_of_outcome fun _ => rfl

theorem unpack_follows (wire : Wire) {p : Passage} (hp : p.message = none) :
    Follows (Pipeline.run (Pipeline.lastStages wire) p : Inbound κ Passage) (Talk.unpack wire p) := by
  refine follows_of_outcome fun s => ?_
  rw [Pipeline.run_lastStages wire hp]
  unfold Talk.unpack
  cases wire.unpack p.envelope.payload p.envelope.headers <;> rfl

theorem deduplication_follows {next : Passing κ} {next' : Passage → Talk Passage} {p : Passage}
    (h : Follows (next p) (next' p)) :
    Follows (Stage.deduplication.handle next p) (Talk.deduplication next' p) := by
  refine (logContains_follows _ _).bind fun known => ?_
  cases known with
  | true => exact follows_pure p
  | false => exact (logAdd_follows _ _).bind fun _ => h

theorem chunkAggregation_follows {next : Passing κ} {next' : Passage → Talk Passage}
    (h : ∀ p : Passage, p.message = none → Follows (next p) (next' p)) {p : Passage}
    (hp : p.message = none) :
    Follows (Stage.chunkAggregation.handle next p) (Talk.chunkAggregation next' p) := by
  refine Follows.bind_ofExcept fun position hread => ?_
  cases position with
  | none => exact h p hp
  | some position =>
    refine (logContains_follows _ _).bind fun known => ?_
    cases known with
    | true => exact follows_pure p
    | false =>
      refine (aggregate_follows hread).bind fun joined => ?_
      cases joined with
      | none => exact follows_pure p
      | some payload => exact h _ hp

theorem process_follows (wire : Wire) (raw : RawEnvelope) :
    Follows ((Pipeline.create wire []).process raw : Inbound κ (Option Message))
      (Talk.process wire raw) := by
  have hrun : Follows (Pipeline.run (Pipeline.create wire []).stages { envelope := raw } : Inbound κ _)
      (Talk.chunkAggregation (Talk.deduplication (Talk.unpack wire)) { envelope := raw }) := by
    rw [Pipeline.create_stages]
    exact chunkAggregation_follows (fun p hp => deduplication_follows (unpack_follows wire hp)) rfl
  exact hrun.bind fun r => follows_pure _

theorem prepare_follows (wire : Wire) (endpoint : Endpoint) (ms : List RawMessage) :
    Follows (Attempt.prepare (.create wire []) endpoint ms : Inbound κ (List Message))
      (Talk.prepare wire endpoint ms) := by
  induction ms with
  | nil => exact follows_pure []
  | cons m ms ih =>
    refine Follows.bind_ofExcept fun raw _ => ?_
    exact (process_follows wire raw).bind fun first => ih.bind fun rest => follows_pure _

/-! ## The commit -/

theorem Op.mapError_bind {ε δ : Type} (f : ε → δ) (o : Op κ ε α) (g : α → Op κ ε β) :
    mapError f (o >>= g) = mapError f o >>= fun a => mapError f (g a) := by
  funext w
  cases ho : o w with
  | ok a u =>
    rw [bind_of_ok (mapError_ok.mpr ho)]
    unfold mapError
    rw [bind_of_ok ho]
  | error e u =>
    rw [bind_of_error (mapError_error.mpr ⟨e, ho, rfl⟩)]
    exact mapError_error.mpr ⟨e, bind_of_error ho, rfl⟩

/-- Where rolling back does nothing, a commit is the commits one after the other. -/
theorem Resource.commitAll_cons {r : Resource κ} {rs : List (Resource κ)}
    (h : ∀ r' ∈ r :: rs, r'.rollback = pure ()) :
    commitAll (r :: rs) = r.commit >>= fun _ => commitAll rs := by
  have hback : Within Eq (rollbackAll (r :: rs)) :=
    rollbackAll_within fun r' hr => h r' hr ▸ within_pure ()
  funext w
  cases hc : r.commit w with
  | ok a u =>
    have ha : (r.commit.attempt : Op κ StoreError _) w = .ok (.ok a) u := by
      rw [Op.attempt_eq, Op.exec_ok.mpr hc]
    rw [bind_of_ok hc]
    exact bind_of_ok ha
  | error e u =>
    have ha : (r.commit.attempt : Op κ StoreError _) w = .ok (.error e) u := by
      rw [Op.attempt_eq, Op.exec_error.mpr hc]
    rw [bind_of_error hc]
    refine (bind_of_ok ha).trans ?_
    change EStateM.Result.error e ((rollbackAll (r :: rs)).exec u).2 = _
    rw [Op.exec_world, ← hback u]

theorem discard_unit (o : Op κ StoreError Unit) : discard o = o := by
  funext w
  cases ho : o w with
  | ok x u => exact discard_ok.mpr ⟨x, ho⟩
  | error e u => exact discard_error.mpr ho

theorem Dialogue.run_write (idle : Bool) (c : StoreCall) {o : Op κ StoreError Unit}
    (ho : discard c.op = o) :
    ((write idle c).run : Op κ InboundError Unit) =
      Op.mapError .store (if idle then pure () else o) := by
  subst ho
  cases idle with
  | true => rfl
  | false =>
    funext w
    change (Op.mapError .store c.op >>= fun _ => pure () : Op κ InboundError Unit) w =
      Op.mapError .store (discard c.op) w
    cases hc : (c.op : Op κ StoreError c.Answer) w with
    | ok x u =>
      rw [bind_of_ok (Op.mapError_ok.mpr hc)]
      exact (Op.mapError_ok.mpr (discard_ok.mpr ⟨x, hc⟩)).symm
    | error e u =>
      rw [bind_of_error (Op.mapError_error.mpr ⟨e, hc, rfl⟩)]
      exact (Op.mapError_error.mpr ⟨e, discard_error.mpr hc, rfl⟩).symm

theorem discard_return (o : Op κ StoreError Unit) (a : α) :
    (discard (o >>= fun _ => pure a) : Op κ StoreError Unit) = o := by
  funext w
  cases ho : o w with
  | ok x u => exact discard_ok.mpr ⟨a, bind_of_ok ho⟩
  | error e u => exact discard_error.mpr (bind_of_error ho)

theorem LogSession.discard_commit (s : LogSession) :
    (discard s.commit : Op κ StoreError Unit) =
      if s.pending.isEmpty then pure () else World.logAppend s.pending := by
  have hs : (s.commit : Op κ StoreError LogSession) =
      (if s.pending.isEmpty then pure () else World.logAppend s.pending) >>= fun _ => pure {} := by
    unfold commit
    split <;> rfl
  rw [hs, discard_return]

theorem ChunkSession.discard_commit (s : ChunkSession) :
    (discard s.commit : Op κ StoreError Unit) =
      (if s.cleaned.isEmpty then pure () else World.cleanChunks s.cleaned) >>= fun _ =>
        if s.stored.isEmpty then pure () else World.storeChunks s.stored := by
  rw [commit_eq, ← bind_assoc, discard_return]

/-- **What is buffered is written** as the two sessions commit it. -/
theorem Buffers.run_commit (b : Buffers) :
    (b.commit.run : Op κ InboundError Unit) =
      Op.mapError .store (discard b.log.commit >>= fun _ => discard b.chunks.commit) := by
  have happend := Dialogue.run_write b.log.pending.isEmpty (.append b.log.pending)
    (discard_unit (World.logAppend (κ := κ) b.log.pending))
  have hclean := Dialogue.run_write b.chunks.cleaned.isEmpty (.clean b.chunks.cleaned)
    (discard_unit (World.cleanChunks (κ := κ) b.chunks.cleaned))
  have hpark := Dialogue.run_write b.chunks.stored.isEmpty (.park b.chunks.stored)
    (discard_unit (World.storeChunks (κ := κ) b.chunks.stored))
  unfold commit
  rw [Dialogue.run_bind, happend, LogSession.discard_commit, ChunkSession.discard_commit,
    Op.mapError_bind, Op.mapError_bind]
  refine bind_congr fun _ => ?_
  rw [Dialogue.run_bind, hclean, hpark]

theorem Transaction.commit_eq {tx : Transaction κ} (wire : Wire) (ho : tx.outbox = [])
    (hr : tx.resources = []) :
    tx.commit wire = discard tx.log.commit >>= fun _ => discard tx.chunks.commit := by
  have hpure : ∀ o : Op κ StoreError Unit, (o >>= fun _ => Resource.commitAll []) = o := by
    intro o
    funext w
    cases h : o w with
    | ok x u => rw [bind_of_ok h]; rfl
    | error e u => rw [bind_of_error h]
  unfold Transaction.commit participants
  rw [ho, hr, List.append_nil, Resource.commitAll_cons (by simp), Resource.commitAll_cons (by simp),
    Resource.commitAll_cons (by simp), hpure]
  rfl

/-! ## The transaction -/

theorem Transaction.rollback_still {tx : Transaction κ} (wire : Wire) (hr : tx.resources = [])
    (w : World κ) : ((tx.rollback wire).exec w).2 = w := by
  have hback : Within Eq (tx.rollback wire) :=
    rollback_reverts fun r hm => by rw [hr] at hm; cases hm
  rw [Op.exec_world, ← hback w]

/-- **A batch that is run through the pipeline in a transaction of its own is the dialogue.** -/
theorem Dialogue.run_transact (wire : Wire) (endpoint : Endpoint) (ms : List RawMessage) :
    ((Handling.process ms).run wire endpoint : Op κ InboundError Handled) =
      (transact wire endpoint ms).run >>= fun out => pure (.accepted out) := by
  have hfollows : Follows (Attempt.prepare (.create wire []) endpoint ms : Inbound κ _) _ :=
    prepare_follows wire endpoint ms
  funext w
  change ((Handling.process ms).receive wire endpoint >>= fun p => _) w = _
  unfold transact
  rw [run_bind, bind_assoc]
  cases hp : ((Talk.prepare wire endpoint ms {}).run : Op κ _ _) w with
  | error e u =>
    obtain ⟨tx, htx, hr⟩ := hfollows.error (s := ⟨{}, w⟩) hp
    have hreceive : (Handling.process ms).receive wire endpoint w = .error e u := by
      dsimp only [Handling.receive]
      rw [htx]
      exact congrArg (EStateM.Result.error e) (Transaction.rollback_still wire hr u)
    rw [bind_of_error hreceive, bind_of_error hp]
  | ok p u =>
    obtain ⟨out, b⟩ := p
    have htx := hfollows.ok (s := ⟨{}, w⟩) hp
    have hreceive : (Handling.process ms).receive wire endpoint w =
        .ok (.accepted out, Transaction.buffering {} b) u := by
      dsimp only [Handling.receive]
      rw [htx]
    rw [bind_of_ok hreceive, bind_of_ok hp]
    dsimp only
    rw [run_bind, Buffers.run_commit, Transaction.commit_eq wire rfl rfl, bind_assoc]
    rfl

/-! ## What a transaction is about -/

/-- What is buffered is about messages with these ids only. -/
structure Buffers.About (ids : String → Prop) (b : Buffers) : Prop where
  pending : ∀ e ∈ b.log.pending, ids e.messageId
  stored : ∀ c ∈ b.chunks.stored, ids c.messageId
  cleaned : ∀ id ∈ b.chunks.cleaned, ids id

/-- So are the calls, and what is buffered afterwards. -/
def Talk.About (ids : String → Prop) (t : Talk α) : Prop :=
  ∀ b : Buffers, b.About ids → (t b).Only (StoreCall.About ids) fun r => r.2.About ids

namespace Talk

variable {ids : String → Prop} {id endpoint : String} {raw : RawEnvelope} {p : Passage}
  {next : Passage → Talk Passage}

theorem about_pure (a : α) : (pure a : Talk α).About ids := fun _ hb => .done hb

theorem About.bind {t : Talk α} {f : α → Talk β} (h : t.About ids) (hf : ∀ a, (f a).About ids) :
    (t >>= f).About ids := fun b hb => (h b hb).bind fun r hr => hf r.1 r.2 hr

theorem about_ofExcept (r : Except InboundError α) : (ofExcept r).About ids := by
  cases r with
  | ok a => exact about_pure a
  | error e => exact fun _ _ => .fail e

theorem about_ask {refuse : StoreError → InboundError} {c : StoreCall} (hc : c.About ids) :
    (ask refuse c).About ids := fun _ hb => .call hc fun _ => .done hb

theorem logContains_about (hid : ids id) : (logContains id endpoint).About ids := by
  intro b hb
  unfold logContains
  split
  · exact .done hb
  · exact about_ask (c := .known ⟨id, endpoint⟩) (List.forall_mem_singleton.mpr hid) b hb

theorem logAdd_about (hid : ids id) : (logAdd id endpoint).About ids := fun _ hb =>
  .done ⟨List.forall_mem_append.mpr ⟨hb.pending, List.forall_mem_singleton.mpr hid⟩, hb.stored,
    hb.cleaned⟩

theorem aggregate_about (hid : ids raw.messageId) (position : ChunkHeaders) :
    (aggregate raw position).About ids := by
  have hparts : (partsOf raw.messageId).About ids := by
    intro b hb
    unfold partsOf
    split
    · exact .done hb
    · exact about_ask (c := .parts raw.messageId) (List.forall_mem_singleton.mpr hid) b hb
  refine hparts.bind fun committed b hb => .done ?_
  change Buffers.About ids ⟨b.log, (b.chunks.take _ _ _ _).2⟩
  rcases b.chunks.take_cases (committed ++ b.chunks.pendingFor raw.messageId) raw.messageId position
    raw.payload with ⟨-, he⟩ | ⟨count, he⟩ | ⟨joined, he⟩
  · rw [he]
    exact hb
  · rw [he]
    exact ⟨hb.pending, List.forall_mem_append.mpr ⟨hb.stored, List.forall_mem_singleton.mpr hid⟩,
      hb.cleaned⟩
  · rw [he]
    refine ⟨hb.pending, fun c hc => hb.stored c (List.mem_filter.mp hc).1, fun id hin => ?_⟩
    rcases ChunkSession.mem_insertId.mp hin with rfl | hin
    · exact hid
    · exact hb.cleaned id hin

theorem deduplication_about (hid : ids p.envelope.messageId) (h : (next p).About ids) :
    (deduplication next p).About ids := by
  refine (logContains_about hid).bind fun known => ?_
  cases known with
  | true => exact about_pure p
  | false => exact (logAdd_about hid).bind fun _ => h

theorem chunkAggregation_about (hid : ids p.envelope.messageId)
    (h : ∀ q : Passage, ids q.envelope.messageId → (next q).About ids) :
    (chunkAggregation next p).About ids := by
  refine (about_ofExcept _).bind fun position => ?_
  cases position with
  | none => exact h p hid
  | some position =>
    refine (logContains_about hid).bind fun known => ?_
    cases known with
    | true => exact about_pure p
    | false =>
      refine (aggregate_about hid position).bind fun joined => ?_
      cases joined with
      | none => exact about_pure p
      | some payload => exact h _ hid

theorem process_about (wire : Wire) (hid : ids raw.messageId) : (process wire raw).About ids := by
  have hlast : ∀ q : Passage, (unpack wire q).About ids := fun q =>
    (about_ofExcept _).bind fun _ => about_pure _
  exact (chunkAggregation_about hid fun q hq => deduplication_about hq (hlast q)).bind fun _ =>
    about_pure _

theorem prepare_about (wire : Wire) (endpoint : Endpoint) {ms : List RawMessage}
    (h : ∀ m ∈ ms, ∀ id, m.headers.get? Headers.messageId = some id → ids id) :
    (prepare wire endpoint ms).About ids := by
  induction ms with
  | nil => exact about_pure []
  | cons m ms ih =>
    obtain ⟨hm, hms⟩ := List.forall_mem_cons.mp h
    unfold prepare
    cases hraw : RawEnvelope.ofMessage endpoint m with
    | error e => exact fun _ _ => .fail _
    | ok raw =>
      obtain ⟨id, hid, rfl⟩ := Settlement.ofMessage_ok hraw
      have hprocess : (process wire ⟨m.payload, m.headers, endpoint, m.offset, id⟩).About ids :=
        process_about wire (hm id hid)
      change (process wire _ >>= fun first => prepare wire endpoint ms >>= fun rest =>
        pure (first.toList ++ rest)).About ids
      exact hprocess.bind fun _ => (ih hms).bind fun _ => about_pure _

end Talk

theorem Buffers.commit_about {ids : String → Prop} {b : Buffers} (hb : b.About ids) :
    b.commit.Only (StoreCall.About ids) fun _ => True := by
  have hwrite : ∀ (idle : Bool) {c : StoreCall}, c.About ids →
      (Dialogue.write idle c).Only (StoreCall.About ids) fun _ => True := by
    intro idle c hc
    cases idle with
    | true => exact .done trivial
    | false => exact .call hc fun _ => .done trivial
  have happend : (StoreCall.append b.log.pending).About ids := List.forall_mem_map.mpr hb.pending
  have hclean : (StoreCall.clean b.chunks.cleaned).About ids := List.forall_mem_map.mpr hb.cleaned
  have hpark : (StoreCall.park b.chunks.stored).About ids := List.forall_mem_map.mpr hb.stored
  exact (hwrite _ happend).bind fun _ _ => (hwrite _ hclean).bind fun _ _ => hwrite _ hpark

/-- **A transaction only makes calls about the messages of its batch.** -/
theorem Dialogue.transact_about {ids : String → Prop} (wire : Wire) (endpoint : Endpoint)
    {ms : List RawMessage}
    (h : ∀ m ∈ ms, ∀ id, m.headers.get? Headers.messageId = some id → ids id) :
    (transact wire endpoint ms).Only (StoreCall.About ids) fun _ => True := by
  have hempty : ({} : Buffers).About ids := ⟨nofun, nofun, nofun⟩
  exact (Talk.prepare_about wire endpoint h {} hempty).bind fun r hr =>
    (Buffers.commit_about hr).bind fun _ _ => .done trivial

end Relay
