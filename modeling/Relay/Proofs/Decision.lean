import Relay.Proofs.Accounting
/-!
# Decisions

Deduplication and chunk aggregation decide about a message: it is dropped, its chunk is parked, it
completes its set, or it goes on as it is. What decides is whether the message is logged, what its
headers say and which chunks of it there are (`Decision.about`), and nothing else about the transaction or
the stores. So two transactions that show the same of a message decide the same about it, whatever
of it is buffered and whatever is committed (`Intake.agree`), and marking a message with its failures
makes no difference (`Intake.insert`).
-/
namespace Relay

variable {κ : Type}

theorem ChunkSession.arrive_parked {existing : List Chunk} {id : String} {position : ChunkHeaders}
    {content : Bytes} {c : Chunk} (h : arrive existing id position content = .parked c) :
    c.messageId = id := by
  rw [arrive_eq] at h
  split at h
  · cases h
  · split at h <;> cases h
    rfl

theorem ChunkSession.arrive_complete {existing : List Chunk} {id : String} {position : ChunkHeaders}
    {content payload : Bytes} (h : arrive existing id position content = .complete payload) :
    payload = join (existing ++ [⟨id, position.index, expected existing position, content⟩]) := by
  rw [arrive_eq] at h
  split at h
  · cases h
  · split at h <;> cases h
    rfl

inductive Decision
  | drop
  | park (c : Chunk)
  | join (payload : Bytes)
  | pass

namespace Decision

/-- The decision about a message that is logged or not, beside the chunks there are of it. -/
def about (raw : RawEnvelope) (known : Bool) (existing : List Chunk) : Decision :=
  if known then .drop
  else
    match ChunkHeaders.read raw.headers with
    | .ok (some position) =>
      match arrive existing raw.messageId position raw.payload with
      | .duplicate => .drop
      | .parked c => .park c
      | .complete payload => .join payload
    | _ => .pass

/-- The payload and the headers that the message goes on with, if it does. -/
def output (raw : RawEnvelope) : Decision → Option (Bytes × Headers)
  | .drop => none
  | .park _ => none
  | .join payload => some (payload, ChunkHeaders.remove raw.headers)
  | .pass => some (raw.payload, raw.headers)

/-- What the decision makes of a transaction. -/
def carry (raw : RawEnvelope) (tx : Transaction κ) : Decision → Transaction κ
  | .drop => tx
  | .park c => { tx with chunks := tx.chunks.store c }
  | .join _ =>
    Transaction.logged { tx with chunks := tx.chunks.cleanup raw.messageId }
      raw.messageId raw.endpoint.name
  | .pass => tx.logged raw.messageId raw.endpoint.name

variable {raw : RawEnvelope} {existing : List Chunk} {position : ChunkHeaders}

theorem about_known : about raw true existing = .drop := rfl

theorem about_plain (h : Settlement.isChunk raw.headers = false) :
    about raw false existing = .pass := by
  unfold about
  rw [if_neg Bool.false_ne_true]
  split
  · next hread => rw [Settlement.isChunk_iff.mpr ⟨_, hread⟩] at h; cases h
  · rfl

theorem about_chunk (h : ChunkHeaders.read raw.headers = .ok (some position)) :
    about raw false existing =
      match arrive existing raw.messageId position raw.payload with
      | .duplicate => .drop
      | .parked c => .park c
      | .complete payload => .join payload := by
  unfold about
  rw [if_neg Bool.false_ne_true, h]

/-- Only a message whose headers give no position goes on as it is. -/
theorem about_pass {known : Bool} (h : about raw known existing = .pass) :
    Settlement.isChunk raw.headers = false := by
  cases known with
  | true => cases h
  | false =>
    cases hchunk : Settlement.isChunk raw.headers with
    | false => rfl
    | true =>
      obtain ⟨position, hread⟩ := Settlement.isChunk_iff.mp hchunk
      rw [about_chunk hread] at h
      cases ha : arrive existing raw.messageId position raw.payload <;> rw [ha] at h <;> cases h

/-- A set is joined from the chunks there are of it and the message. -/
theorem about_join {known : Bool} {payload : Bytes}
    (h : about raw known existing = .join payload) :
    ∃ position count, ChunkHeaders.read raw.headers = .ok (some position) ∧
      payload = Relay.join (existing ++ [⟨raw.messageId, position.index, count, raw.payload⟩]) := by
  cases known with
  | true => cases h
  | false =>
    cases hchunk : Settlement.isChunk raw.headers with
    | false => rw [about_plain hchunk] at h; cases h
    | true =>
      obtain ⟨position, hread⟩ := Settlement.isChunk_iff.mp hchunk
      refine ⟨position, ChunkSession.expected existing position, hread, ?_⟩
      rw [about_chunk hread] at h
      cases ha : arrive existing raw.messageId position raw.payload with
      | duplicate => rw [ha] at h; cases h
      | parked c => rw [ha] at h; cases h
      | complete joined =>
        rw [ha] at h
        cases h
        exact ChunkSession.arrive_complete ha

end Decision

open Decision

/-- The envelope of a message with another header. -/
theorem RawEnvelope.ofMessage_insert {endpoint : Endpoint} {m : RawMessage} {raw : RawEnvelope}
    {name : String} (h : ofMessage endpoint m = .ok raw)
    (hn : sameName name Headers.messageId = false) (value : String) :
    ofMessage endpoint { m with headers := m.headers.insert name value } =
      .ok { raw with headers := raw.headers.insert name value } := by
  obtain ⟨id, hid, rfl⟩ := Settlement.ofMessage_ok h
  unfold ofMessage
  rw [Headers.get?_insert_of_ne _ _ hn, hid]

theorem RawEnvelope.ofMessage_insert_error {endpoint : Endpoint} {m : RawMessage}
    {e : EnvelopeError} {name value : String} (h : ofMessage endpoint m = .error e)
    (hn : sameName name Headers.messageId = false) :
    ofMessage endpoint { m with headers := m.headers.insert name value } = .error e := by
  have hnone := Settlement.ofMessage_error h
  unfold ofMessage at h ⊢
  rw [Headers.get?_insert_of_ne _ _ hn]
  rw [hnone] at h ⊢
  exact h

namespace Intake

variable {l l' : InboundLog} {c c' : ChunkStore} {raw : RawEnvelope}
  {tx tx' ux ux' : Transaction κ} {o o' : Option (Bytes × Headers)}

/-- **Taking in a message is a decision about it.** -/
theorem decision (h : Intake l c raw tx o tx') :
    ∃ known existing, tx.log.sees l raw.messageId raw.endpoint.name = .ok known ∧
      (known = false → Settlement.isChunk raw.headers = true →
        tx.chunks.sees c raw.messageId = .ok existing) ∧
      o = (about raw known existing).output raw ∧
      tx' = (about raw known existing).carry raw tx := by
  cases h with
  | known hlog => exact ⟨true, [], hlog, (fun hk => nomatch hk), rfl, rfl⟩
  | plain hlog hread =>
    refine ⟨false, [], hlog, fun _ hchunk => ?_, ?_⟩
    · rw [hread] at hchunk
      cases hchunk
    · rw [about_plain hread]
      exact ⟨rfl, rfl⟩
  | @held position existing hlog hread hsees htake =>
    refine ⟨false, existing, hlog, fun _ _ => hsees, ?_⟩
    rw [about_chunk hread]
    unfold ChunkSession.take at htake ⊢
    cases ha : arrive existing raw.messageId position raw.payload with
    | duplicate => exact ⟨rfl, rfl⟩
    | parked d => exact ⟨rfl, rfl⟩
    | complete payload =>
      rw [ha] at htake
      cases htake
  | @joined position existing payload hlog hread hsees htake =>
    refine ⟨false, existing, hlog, fun _ _ => hsees, ?_⟩
    rw [about_chunk hread]
    unfold ChunkSession.take at htake ⊢
    cases ha : arrive existing raw.messageId position raw.payload with
    | duplicate =>
      rw [ha] at htake
      cases htake
    | parked d =>
      rw [ha] at htake
      cases htake
    | complete joined =>
      rw [ha] at htake
      cases htake
      exact ⟨rfl, rfl⟩

/-- **Two transactions that show the same of a message decide the same about it.** -/
theorem agree (h : Intake l c raw tx o tx') (h' : Intake l' c' raw ux o' ux')
    (hlog : ∀ b b', tx.log.sees l raw.messageId raw.endpoint.name = .ok b →
      ux.log.sees l' raw.messageId raw.endpoint.name = .ok b' → b = b')
    (hchunks : ∀ cs cs', tx.chunks.sees c raw.messageId = .ok cs →
      ux.chunks.sees c' raw.messageId = .ok cs' → cs = cs') :
    ∃ d : Decision, o = d.output raw ∧ o' = d.output raw ∧ tx' = d.carry raw tx ∧
      ux' = d.carry raw ux := by
  obtain ⟨known, existing, hknown, hsees, ho, htx⟩ := h.decision
  obtain ⟨known', existing', hknown', hsees', ho', hux⟩ := h'.decision
  obtain rfl : known = known' := hlog _ _ hknown hknown'
  have hd : about raw known existing = about raw known existing' := by
    cases known with
    | true => rfl
    | false =>
      cases hchunk : Settlement.isChunk raw.headers with
      | false => rw [about_plain hchunk, about_plain hchunk]
      | true => rw [hchunks _ _ (hsees rfl hchunk) (hsees' rfl hchunk)]
  exact ⟨about raw known existing, ho, hd ▸ ho', htx, hd ▸ hux⟩

/-- Another header makes no difference to what becomes of a message. -/
theorem insert (h : Intake l c raw tx o tx') {name : String} (hn : ChunkHeaders.Foreign name)
    (value : String) :
    Intake l c { raw with headers := raw.headers.insert name value } tx
      (o.map fun r => (r.1, r.2.insert name value)) tx' := by
  have hread := ChunkHeaders.read_insert raw.headers hn value
  cases h with
  | known hlog => exact .known hlog
  | plain hlog hplain =>
    refine .plain hlog ?_
    unfold Settlement.isChunk at hplain ⊢
    rwa [hread]
  | held hlog hposition hsees htake => exact .held hlog (hread.trans hposition) hsees htake
  | joined hlog hposition hsees htake =>
    dsimp only [Option.map_some]
    rw [← ChunkHeaders.remove_insert _ hn]
    exact .joined hlog (hread.trans hposition) hsees htake

/-- Over the same stores there is one way to take a message in. -/
theorem unique (h : Intake l c raw tx o tx') (h' : Intake l c raw tx o' ux') :
    o' = o ∧ ux' = tx' := by
  obtain ⟨d, rfl, rfl, rfl, rfl⟩ := h.agree h' (fun b b' hb hb' => Except.ok.inj (hb.symm.trans hb'))
    fun cs cs' hcs hcs' => Except.ok.inj (hcs.symm.trans hcs')
  exact ⟨rfl, rfl⟩

end Intake

end Relay
