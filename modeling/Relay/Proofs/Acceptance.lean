import Relay.Proofs.Delivery
import Relay.Proofs.Discretion
import Relay.Proofs.Ledger
import Relay.Proofs.Settlement
/-!
# What is let through

`Ledger.accept` says what the pipeline hands on of a list of messages where the ledger is, or that it
fails on one of them. It goes by the messages and the ledger alone: a transaction that shows the
ledger hands on the same, over whatever stores (`Attempt.prepare_accepts`), and it fails on messages
that are accepted only where a store has refused a look-up (`Attempt.prepare_withheld`).

A consumer deals with a batch in a transaction of its own: it hands the messages on, or settles them
when it gives up on them (`Handling`). So what this comes to, and the ledger that is left when the
transaction is committed, is a function of the ledger before (`Handling.run_ok`), and over stores that
do not fail it is done (`Handling.run_reliable`).
-/
namespace Relay

variable {κ : Type}

theorem except_bind_ok {ε α β : Type} {x : Except ε α} {f : α → Except ε β} {b : β} :
    (x >>= f) = .ok b ↔ ∃ a, x = .ok a ∧ f a = .ok b := by
  cases x <;> simp [bind, Except.bind]

/-! ## What a decision makes of a ledger -/

theorem Chunks.ofMessage_filter (cs : List Chunk) (id other : String) :
    ofMessage (cs.filter fun c => c.messageId != id) other =
      if other = id then [] else ofMessage cs other := by
  unfold ofMessage
  rw [List.filter_filter]
  split
  · next h =>
    subst h
    refine List.filter_eq_nil_iff.mpr fun c _ => ?_
    simp
  · next h =>
    congr 1
    funext c
    by_cases hc : c.messageId = other <;> simp [hc, h]

namespace Decision

/-- The entries of the log that it adds. -/
def entries (raw : RawEnvelope) : Decision → List LogEntry
  | .drop => []
  | .park _ => []
  | .join _ => [⟨raw.messageId, raw.endpoint.name⟩]
  | .pass => [⟨raw.messageId, raw.endpoint.name⟩]

/-- What it leaves of the chunks of the message. -/
def left (cs : List Chunk) : Decision → List Chunk
  | .drop => cs
  | .park c => cs ++ [c]
  | .join _ => []
  | .pass => cs

theorem entries_endpoint {raw : RawEnvelope} {d : Decision} {e : LogEntry}
    (h : e ∈ d.entries raw) : e.endpoint = raw.endpoint.name := by
  cases d <;> simp [entries] at h <;> simp [h]

end Decision

namespace Ledger

variable {L : Ledger} {raw : RawEnvelope} {d : Decision}

theorem carry_logged : (L.carry raw d).logged = L.logged ++ d.entries raw := by
  cases d <;> simp [carry, Decision.entries]

theorem carry_chunks (hd : ∀ c, d = .park c → c.messageId = raw.messageId) (id : String) :
    Chunks.ofMessage (L.carry raw d).parked id =
      if id = raw.messageId then d.left (Chunks.ofMessage L.parked id)
      else Chunks.ofMessage L.parked id := by
  cases d with
  | drop => simp [carry, Decision.left]
  | pass => simp [carry, Decision.left]
  | park c =>
    have hc := hd c rfl
    change Chunks.ofMessage (L.parked ++ [c]) id = _
    rw [Chunks.ofMessage_append]
    by_cases hid : id = raw.messageId
    · rw [if_pos hid, Chunks.ofMessage_of_eq (hc.trans hid.symm)]
      rfl
    · rw [if_neg hid, Chunks.ofMessage_of_ne fun h => hid (h.symm.trans hc), List.append_nil]
  | join payload => exact Chunks.ofMessage_filter _ _ _

/-- Only a chunk of a message that is not logged changes the chunks of its set. -/
theorem decide_chunk (h : ¬ ∀ cs, (L.decide raw).left cs = cs) :
    Settlement.isChunk raw.headers = true ∧ ⟨raw.messageId, raw.endpoint.name⟩ ∉ L.logged := by
  refine ⟨?_, fun hin => h fun cs => ?_⟩
  · by_contra hplain
    have hpass : Decision.about raw false (Chunks.ofMessage L.parked raw.messageId) = .pass :=
      Decision.about_plain (Bool.eq_false_iff.mpr hplain)
    refine h fun cs => ?_
    unfold decide
    cases L.logged.contains ⟨raw.messageId, raw.endpoint.name⟩ with
    | true => rfl
    | false => rw [hpass]; rfl
  · rw [decide_logged hin]
    rfl

end Ledger

/-! ## Acceptance -/

namespace Ledger

variable (wire : Wire) (endpoint : Endpoint)

/-- What the pipeline hands on of a message, or why it fails on it. -/
def acceptRaw (L : Ledger) (raw : RawEnvelope) : Except InboundError (Option Message) :=
  match ChunkHeaders.read raw.headers with
  | .error e => .error (.chunk e)
  | .ok _ =>
    match (L.decide raw).output raw with
    | none => .ok none
    | some (payload, headers) =>
      (wire.unpack payload headers).map fun r =>
        some (.inbound { raw with payload := r.1, headers } (some r.2) true)

def acceptOne (L : Ledger) (m : RawMessage) : Except InboundError (Option Message) :=
  match RawEnvelope.ofMessage endpoint m with
  | .error e => .error (.envelope e)
  | .ok raw => L.acceptRaw wire raw

/-- What the pipeline hands on of the messages, in order. -/
def accept : Ledger → List RawMessage → Except InboundError (List Message)
  | _, [] => .ok []
  | L, m :: ms => do
    let first ← L.acceptOne wire endpoint m
    let rest ← accept (L.next endpoint m) ms
    return first.toList ++ rest

variable {wire endpoint} {L : Ledger} {m : RawMessage} {ms : List RawMessage}
  {raw : RawEnvelope} {out : List Message}

theorem acceptRaw_ok {r : Option Message} (h : L.acceptRaw wire raw = .ok r) :
    (∃ position, ChunkHeaders.read raw.headers = .ok position) ∧
      match (L.decide raw).output raw with
      | none => r = none
      | some (payload, headers) => ∃ plain m, wire.unpack payload headers = .ok (plain, m) ∧
        r = some (.inbound { raw with payload := plain, headers } (some m) true) := by
  unfold acceptRaw at h
  cases hread : ChunkHeaders.read raw.headers with
  | error e => rw [hread] at h; cases h
  | ok position =>
    rw [hread] at h
    refine ⟨⟨position, rfl⟩, ?_⟩
    cases ho : (L.decide raw).output raw with
    | none => rw [ho] at h; cases h; rfl
    | some b =>
      rw [ho] at h
      dsimp only at h ⊢
      cases hu : wire.unpack b.1 b.2 with
      | error e => rw [hu] at h; cases h
      | ok p => rw [hu] at h; cases h; exact ⟨p.1, p.2, rfl, rfl⟩

theorem acceptOne_ok {r : Option Message} :
    L.acceptOne wire endpoint m = .ok r ↔
      ∃ raw, RawEnvelope.ofMessage endpoint m = .ok raw ∧ L.acceptRaw wire raw = .ok r := by
  unfold acceptOne
  cases RawEnvelope.ofMessage endpoint m <;> simp

theorem accept_cons_ok :
    L.accept wire endpoint (m :: ms) = .ok out ↔
      ∃ first rest, L.acceptOne wire endpoint m = .ok first ∧
        (L.next endpoint m).accept wire endpoint ms = .ok rest ∧ out = first.toList ++ rest := by
  constructor
  · intro h
    obtain ⟨first, hfirst, h⟩ := except_bind_ok.mp h
    obtain ⟨rest, hrest, h⟩ := except_bind_ok.mp h
    cases h
    exact ⟨first, rest, hfirst, hrest, rfl⟩
  · rintro ⟨first, rest, hfirst, hrest, rfl⟩
    exact except_bind_ok.mpr ⟨first, hfirst, except_bind_ok.mpr ⟨rest, hrest, rfl⟩⟩

/-- What goes on of a message is logged with it, and was not before. -/
theorem output_new {payload : Bytes} {headers : Headers}
    (h : (L.decide raw).output raw = some (payload, headers)) :
    ⟨raw.messageId, raw.endpoint.name⟩ ∉ L.logged ∧
      ⟨raw.messageId, raw.endpoint.name⟩ ∈ (L.carry raw (L.decide raw)).logged := by
  refine ⟨fun hin => ?_, ?_⟩
  · rw [decide_logged hin] at h
    cases h
  · cases hd : L.decide raw with
    | drop => rw [hd] at h; cases h
    | park c => rw [hd] at h; cases h
    | join payload => exact List.mem_append_right _ List.mem_cons_self
    | pass => exact List.mem_append_right _ List.mem_cons_self

/-- **What is let through is new and then logged.** -/
theorem accept_new (h : L.accept wire endpoint ms = .ok out) {id : String} (hid : id ∈ envelopeIds out) :
    ⟨id, endpoint.name⟩ ∉ L.logged ∧ ⟨id, endpoint.name⟩ ∈ (L.after endpoint ms).logged := by
  induction ms generalizing L out with
  | nil =>
    cases h
    cases hid
  | cons m ms ih =>
    obtain ⟨first, rest, hfirst, hrest, rfl⟩ := accept_cons_ok.mp h
    obtain ⟨raw, hraw, hfirst⟩ := acceptOne_ok.mp hfirst
    have happ : envelopeIds (first.toList ++ rest) = envelopeIds first.toList ++ envelopeIds rest :=
      List.filterMap_append
    rw [happ] at hid
    rcases List.mem_append.mp hid with hid | hid
    · -- it is what was let through of the first message
      obtain ⟨-, hr⟩ := acceptRaw_ok hfirst
      cases ho : (L.decide raw).output raw with
      | none => rw [ho] at hr; rw [hr] at hid; cases hid
      | some b =>
        rw [ho] at hr
        obtain ⟨plain, m', -, rfl⟩ := hr
        obtain ⟨hnew, hlogged⟩ := output_new ho
        rw [← next_ok hraw] at hlogged
        obtain rfl : id = raw.messageId := List.mem_singleton.mp hid
        obtain ⟨id', -, rfl⟩ := Settlement.ofMessage_ok hraw
        exact ⟨hnew, mem_after hlogged ms⟩
    · obtain ⟨hnew, hlogged⟩ := ih hrest hid
      exact ⟨fun hin => hnew (mem_next hin), hlogged⟩

end Ledger

/-! ## The pipeline -/

/-- What an inbox shows. -/
def Inbox.ledger (s : Inbox κ) : Ledger := s.transaction.shown s.world.log s.world.chunks

open Ledger
open World (Alike)

namespace Pipeline

variable {wire : Wire} {raw : RawEnvelope} {s t : Inbox κ}

/-- **A message that gets through the pipeline is accepted.** -/
theorem process_accepts {r : Option Message} (h : (create wire []).process raw s = .ok r t) :
    s.ledger.acceptRaw wire raw = .ok r ∧ t.ledger = s.ledger.carry raw (s.ledger.decide raw) := by
  obtain ⟨⟨position, hread⟩, o, hin, hw, hr⟩ := process_ok h
  obtain ⟨hdecide, hshown⟩ := hin.follows
  refine ⟨?_, ?_⟩
  · unfold acceptRaw
    change o = (s.ledger.decide raw).output raw at hdecide
    rw [hread, ← hdecide]
    cases o with
    | none => exact congrArg Except.ok hr.symm
    | some b =>
      obtain ⟨plain, m, hu, rfl⟩ := hr
      dsimp only
      rw [hu]
      rfl
  · unfold Inbox.ledger
    rw [hw.log, hw.chunks]
    exact hshown

/-- The pipeline fails on a message that is accepted only where a store has refused a look-up. -/
theorem process_withheld {r : Option Message} {e : InboundError}
    (h : (create wire []).process raw s = .error e t)
    (ha : s.ledger.acceptRaw wire raw = .ok r) : e.Refused := by
  obtain ⟨⟨position, hread⟩, hr⟩ := acceptRaw_ok ha
  refine (process_failed hread h).resolve_right ?_
  rintro ⟨payload, headers, hin, hfail⟩
  obtain ⟨hdecide, -⟩ := hin.follows
  change some (payload, headers) = (s.ledger.decide raw).output raw at hdecide
  rw [← hdecide] at hr
  obtain ⟨plain, m, hu, -⟩ := hr
  cases hfail.symm.trans hu

end Pipeline

namespace Attempt

variable {wire : Wire} {endpoint : Endpoint} {ms : List RawMessage} {out : List Message}
  {s t : Inbox κ}

/-- **The pipeline hands on what the ledger accepts.** -/
theorem prepare_accepts (h : prepare (.create wire []) endpoint ms s = .ok out t) :
    s.ledger.accept wire endpoint ms = .ok out ∧ t.ledger = s.ledger.after endpoint ms := by
  induction ms generalizing out s with
  | nil =>
    cases h
    exact ⟨rfl, rfl⟩
  | cons m ms ih =>
    obtain ⟨raw, first, rest, v, hraw, hfirst, hrest, rfl⟩ := prepare_cons_ok h
    obtain ⟨haccept, hcarry⟩ := Pipeline.process_accepts hfirst
    obtain ⟨hothers, hafter⟩ := ih hrest
    rw [← next_ok hraw] at hcarry
    rw [hcarry] at hothers hafter
    exact ⟨accept_cons_ok.mpr ⟨first, rest, acceptOne_ok.mpr ⟨raw, hraw, haccept⟩, hothers, rfl⟩,
      hafter⟩

/-- Where it fails on messages that are accepted, a store has refused a look-up. -/
theorem prepare_withheld {e : InboundError}
    (h : prepare (.create wire []) endpoint ms s = .error e t)
    (ha : s.ledger.accept wire endpoint ms = .ok out) : e.Refused := by
  induction ms generalizing out s with
  | nil => cases h
  | cons m ms ih =>
    obtain ⟨first, rest, hfirst, hrest, -⟩ := accept_cons_ok.mp ha
    obtain ⟨raw, hraw, hfirst⟩ := acceptOne_ok.mp hfirst
    rw [prepare_cons _ hraw] at h
    rcases bind_error h with hp | ⟨first', v, hp, h1⟩
    · exact Pipeline.process_withheld hp hfirst
    obtain ⟨-, hcarry⟩ := Pipeline.process_accepts hp
    rw [← next_ok hraw] at hcarry
    rw [← hcarry] at hrest
    rcases bind_error h1 with hp' | ⟨rest', x, -, h2⟩
    · exact ih hp' hrest
    · cases h2

end Attempt

/-! ## What was taken in of a batch -/

theorem TakenIn.exact {l : InboundLog} {c : ChunkStore} {endpoint : Endpoint}
    {tx tx' : Transaction κ} {ms : List RawMessage} (h : TakenIn l c endpoint tx ms tx')
    (hx : tx.Exact l c) : tx'.Exact l c := by
  induction h with
  | nil => exact hx
  | unnamed _ _ ih => exact ih hx
  | named _ h _ ih => exact ih (h.exact hx)

/-- The transaction makes of the stores of the world what the ledger says. -/
structure Transaction.Makes (tx : Transaction κ) (L : Ledger) (w : World κ) : Prop where
  exact : tx.Exact w.log w.chunks
  shown : tx.shown w.log w.chunks = L
  resources : tx.resources = []

/-- What came out of the pipeline is to be committed. -/
theorem Attempt.prepare_makes {wire : Wire} {endpoint : Endpoint} {ms : List RawMessage}
    {out : List Message} {w : World κ} {t : Inbox κ}
    (h : prepare (.create wire []) endpoint ms ⟨{}, w⟩ = .ok out t) :
    t.transaction.Makes t.ledger t.world ∧ Alike w t.world := by
  obtain ⟨htaken, hw⟩ := prepare_ok h
  refine ⟨⟨?_, rfl, (htaken.sound (Transaction.sound_empty _)).resources⟩, hw⟩
  rw [hw.log, hw.chunks]
  exact htaken.exact (Transaction.exact_empty _ _)

/-- So is what a batch was settled into. -/
theorem Settlement.many_makes {endpoint : Endpoint} {ms settled : List RawMessage} {w : World κ}
    {t : Inbox κ} (h : many endpoint ms ⟨{}, w⟩ = .ok settled t) :
    t.transaction.Makes t.ledger t.world ∧ Alike w t.world := by
  obtain ⟨htaken, hw⟩ := many_ok h
  refine ⟨⟨?_, rfl, (htaken.sound (Transaction.sound_empty _)).resources⟩, hw⟩
  rw [hw.log, hw.chunks]
  exact htaken.exact (Transaction.exact_empty _ _)

/-! ## Stores that do not fail -/

theorem TakenIn.outbox {l : InboundLog} {c : ChunkStore} {endpoint : Endpoint}
    {tx tx' : Transaction κ} {ms : List RawMessage} (h : TakenIn l c endpoint tx ms tx') :
    tx'.outbox = tx.outbox ∧ tx'.resources = tx.resources := by
  induction h with
  | nil => exact ⟨rfl, rfl⟩
  | unnamed _ _ ih => exact ih
  | named _ h _ ih => exact ⟨ih.1.trans h.outbox, ih.2.trans h.resources⟩

theorem Attempt.prepare_sure {wire : Wire} {endpoint : Endpoint} {ms : List RawMessage}
    {b : Inbox κ} (hb : b.Sure) :
    Ensures (prepare (.create wire []) endpoint ms) b (fun _ b' => b'.Sure) fun e => ¬ e.Refused := by
  have hall : Ensures (Delivery.receiveAll (.create wire []) endpoint ms) b (fun _ b' => b'.Sure)
      fun r => r.message ∈ ms ∧ ¬ r.error.Refused := Delivery.receiveAll_sure hb
  rw [← Delivery.receiveAll_prepare]
  refine ensures_intro (fun out t h => hall.ok (adaptExcept_ok.mp h)) fun e t h => ?_
  obtain ⟨r, hr, rfl⟩ := adaptExcept_error.mp h
  exact (hall.error hr).2

namespace Settlement

variable {endpoint : Endpoint}

theorem one_frank (m : RawMessage) : Inbound.Frank (one endpoint m : Inbound κ _) := by
  unfold one
  cases RawEnvelope.ofMessage endpoint m with
  | error e => exact Inbound.frank_pure _
  | ok raw =>
    have hjoined : Inbound.Frank (joinedOf raw m : Inbound κ _) := by
      unfold joinedOf
      split
      · refine (Inbound.aggregate_frank raw).bind fun joined => ?_
        cases joined <;> exact Inbound.frank_pure _
      · exact Inbound.frank_pure _
    refine (Inbound.logContains_frank _ _).bind fun known => ?_
    cases known with
    | true => exact Inbound.frank_pure _
    | false =>
      refine hjoined.bind fun settled => ?_
      cases settled with
      | none => exact Inbound.frank_pure _
      | some m => exact Inbound.Frank.bind (fun _ hs => hs) fun _ => Inbound.frank_pure _

theorem many_frank (ms : List RawMessage) : Inbound.Frank (many endpoint ms : Inbound κ _) := by
  induction ms with
  | nil => exact Inbound.frank_pure _
  | cons m ms ih => exact (one_frank m).bind fun _ => ih.bind fun _ => Inbound.frank_pure _

/-- **With reliable stores every batch is settled.** -/
theorem many_sure {ms : List RawMessage} {b : Inbox κ} (hb : b.Sure) :
    Ensures (many endpoint ms) b (fun _ b' => b'.Sure) fun _ => False := by
  refine ensures_intro (fun settled t h => ?_) fun e t h => ?_
  · obtain ⟨htaken, hw⟩ := many_ok h
    exact ⟨hw.reliable hb.world, htaken.outbox.1.trans hb.outbox, htaken.outbox.2.trans hb.resources⟩
  · exact (many_frank ms b hb.world).error h (many_error h).1

end Settlement

/-! ## Batches in transactions of their own -/

/-- How a consumer deals with a batch: it runs it through the pipeline, or settles it. -/
inductive Handling
  | process (ms : List RawMessage)
  | settle (ms : List RawMessage)

/-- What has come of it: the messages that were let through, or those that the batch was settled
into. -/
inductive Handled
  | accepted (out : List Message)
  | settled (ms : List RawMessage)

/-- The ids of the messages. -/
def Handled.ids : Handled → List String
  | .accepted out => envelopeIds out
  | .settled ms => ms.filterMap fun m => m.headers.get? Headers.messageId

/-- What comes of the batch where the ledger is. -/
def Ledger.handle (wire : Wire) (endpoint : Endpoint) (L : Ledger) :
    Handling → Except InboundError Handled
  | .process ms => (L.accept wire endpoint ms).map .accepted
  | .settle ms => .ok (.settled (L.settled endpoint ms))

namespace Handling

def messages : Handling → List RawMessage
  | .process ms => ms
  | .settle ms => ms

/-- Deals with the batch in a new transaction, which is to be committed. -/
def receive (wire : Wire) (endpoint : Endpoint) :
    Handling → Op κ InboundError (Handled × Transaction κ)
  | .process ms => fun w =>
    match Attempt.prepare (.create wire []) endpoint ms ⟨{}, w⟩ with
    | .ok out s => .ok (.accepted out, s.transaction) s.world
    | .error e s => .error e ((s.transaction.rollback wire).exec s.world).2
  | .settle ms => do
    let (settled, tx) ← Settlement.batch wire endpoint ms
    return (.settled settled, tx)

/-- Deals with the batch in a transaction of its own. -/
def run (wire : Wire) (endpoint : Endpoint) (h : Handling) : Op κ InboundError Handled := do
  let (r, tx) ← h.receive wire endpoint
  (tx.commit wire).mapError .store
  return r

variable {wire : Wire} {endpoint : Endpoint} {h : Handling} {r : Handled} {tx : Transaction κ}
  {w u w' : World κ}

theorem receive_ok (hr : h.receive wire endpoint w = .ok (r, tx) u) :
    w.ledger.handle wire endpoint h = .ok r ∧ tx.Makes (w.ledger.after endpoint h.messages) u ∧
      Alike w u := by
  have hshown : ({} : Transaction κ).shown w.log w.chunks = w.ledger := Transaction.shown_empty w
  cases h with
  | process ms =>
    dsimp only [receive] at hr
    cases hp : Attempt.prepare (.create wire []) endpoint ms ⟨{}, w⟩ with
    | error e s => rw [hp] at hr; cases hr
    | ok out s =>
      rw [hp] at hr
      cases hr
      obtain ⟨haccept, hafter⟩ := Attempt.prepare_accepts hp
      obtain ⟨hmakes, hw⟩ := Attempt.prepare_makes hp
      rw [hafter] at hmakes
      unfold Inbox.ledger at haccept hmakes
      rw [hshown] at haccept hmakes
      refine ⟨?_, hmakes, hw⟩
      change (w.ledger.accept wire endpoint ms).map Handled.accepted = _
      rw [haccept]
      rfl
  | settle ms =>
    obtain ⟨⟨settled, tx'⟩, v, hb, h1⟩ := bind_ok hr
    cases h1
    have hm := Settlement.batch_ok.mp hb
    obtain ⟨rfl, hafter, -⟩ := Settlement.many_follows hm (Transaction.exact_empty _ _)
    obtain ⟨hmakes, hw⟩ := Settlement.many_makes hm
    unfold Inbox.ledger at hmakes
    dsimp only at hafter hmakes hw
    rw [hw.log, hw.chunks, hafter, hshown] at hmakes
    refine ⟨?_, hmakes, hw⟩
    rw [hshown]
    rfl

/-- **A transaction goes by the ledger**, and its commit leaves what the messages make of it. -/
theorem run_ok (hr : h.run wire endpoint w = .ok r w') :
    w.ledger.handle wire endpoint h = .ok r ∧ w'.ledger = w.ledger.after endpoint h.messages := by
  obtain ⟨⟨r', tx⟩, u, hreceive, h1⟩ := bind_ok hr
  obtain ⟨_, v, hc, h2⟩ := bind_ok h1
  cases h2
  obtain ⟨hhandle, htx, hw⟩ := receive_ok hreceive
  have hledger := Transaction.commit_ledger htx.exact htx.resources (Op.mapError_ok.mp hc)
  exact ⟨hhandle, hledger.trans htx.shown⟩

theorem receive_reliable (hw : w.Reliable) (hh : w.ledger.handle wire endpoint h = .ok r) :
    ∃ tx u, h.receive wire endpoint w = .ok (r, tx) u ∧ Inbox.Sure ⟨tx, u⟩ := by
  have hsure : Inbox.Sure (⟨{}, w⟩ : Inbox κ) := ⟨hw, rfl, rfl⟩
  have hshown : Inbox.ledger (⟨{}, w⟩ : Inbox κ) = w.ledger := Transaction.shown_empty w
  cases h with
  | process ms =>
    dsimp only [receive]
    change (w.ledger.accept wire endpoint ms).map Handled.accepted = _ at hh
    rw [← hshown] at hh
    cases ha : Ledger.accept wire endpoint (Inbox.ledger (⟨{}, w⟩ : Inbox κ)) ms with
    | error e => rw [ha] at hh; cases hh
    | ok out =>
      rw [ha] at hh
      cases hh
      have hprepare : Ensures (Attempt.prepare (.create wire []) endpoint ms) ⟨{}, w⟩
          (fun _ b => b.Sure) fun e => ¬ e.Refused := Attempt.prepare_sure hsure
      cases hp : Attempt.prepare (.create wire []) endpoint ms ⟨{}, w⟩ with
      | error e s =>
        exact absurd (Attempt.prepare_withheld hp ha) (hprepare.error hp)
      | ok out' s =>
        obtain ⟨haccept, -⟩ := Attempt.prepare_accepts hp
        cases haccept.symm.trans ha
        exact ⟨s.transaction, s.world, rfl, hprepare.ok hp⟩
  | settle ms =>
    have hmany : Ensures (Settlement.many endpoint ms) ⟨{}, w⟩ (fun _ b => b.Sure) fun _ => False :=
      Settlement.many_sure hsure
    cases hm : Settlement.many endpoint ms ⟨{}, w⟩ with
    | error e s => exact (hmany.error hm).elim
    | ok settled s =>
      obtain ⟨rfl, -, -⟩ := Settlement.many_follows hm (Transaction.exact_empty _ _)
      rw [← hshown] at hh
      cases hh
      exact ⟨s.transaction, s.world, bind_of_ok (Settlement.batch_ok.mpr hm), hmany.ok hm⟩

/-- **With reliable stores what the ledger says is done.** -/
theorem run_reliable (hw : w.Reliable) (hh : w.ledger.handle wire endpoint h = .ok r) :
    ∃ w', h.run wire endpoint w = .ok r w' ∧ w'.Reliable := by
  obtain ⟨tx, u, hr, hsure⟩ := receive_reliable hw hh
  obtain ⟨_, v, hc, hv⟩ :=
    (Transaction.commit_assured wire hsure.outbox hsure.resources).exists_ok hsure.world
  refine ⟨v, ?_, hv⟩
  unfold run
  rw [bind_of_ok hr]
  exact bind_of_ok (Op.mapError_ok.mpr hc)

/-- What is done with a batch is what the ledger says, and with reliable stores it is done. -/
theorem run_ensures (hh : w.ledger.handle wire endpoint h = .ok r) :
    Ensures (h.run wire endpoint) w
      (fun r' w' => r' = r ∧ w'.ledger = w.ledger.after endpoint h.messages ∧
        (w.Reliable → w'.Reliable))
      fun _ => ¬ w.Reliable := by
  refine ensures_intro (fun r' w' hr => ?_) fun e w' he hw => ?_
  · obtain ⟨hhandle, hledger⟩ := run_ok hr
    refine ⟨Except.ok.inj (hhandle.symm.trans hh), hledger, fun hw => ?_⟩
    obtain ⟨v, hrun, hv⟩ := run_reliable hw hh
    cases hr.symm.trans hrun
    exact hv
  · obtain ⟨v, hrun, -⟩ := run_reliable hw hh
    cases he.symm.trans hrun

end Handling

end Relay
