import Relay.Proofs.Decision
import Relay.Proofs.Foresight
/-!
# The ledger of a consumer

A ledger is what the stores hold, the log entries and the parked chunks in order of arrival, whichever
engine keeps them and however much of it is still buffered in a transaction. Decisions about messages
go by the ledger that a transaction shows (`Intake.follows`) and make of it what `Ledger.carry` says;
a commit makes of the stores what the transaction showed (`Transaction.commit_ledger`). So a list of
messages that is settled has gone through `Ledger.settled` and `Ledger.after`, which know neither
sessions nor stores (`Settlement.many_follows`).

Results:
- `Ledger.settled_logged`: what is settled is logged.
- `Ledger.joins_gone`, `unjoined_kept`: of a set that was joined no chunk is left, of the others all.
- `Ledger.settled_marked`, `after_marked`: whether the messages are marked with failures makes no
  difference to this.
-/
namespace Relay

open World (Alike)

variable {κ : Type}

/-- What is logged and what is parked, each in order of arrival. -/
structure Ledger where
  logged : List LogEntry
  parked : List Chunk
  deriving DecidableEq, Repr

/-- What the stores hold. -/
def World.ledger (w : World κ) : Ledger := ⟨w.log.items, w.chunks.items⟩

/-- Worlds with the same stores have one ledger. -/
theorem World.ledger_eq {w w' : World κ} (hl : w'.log = w.log) (hc : w'.chunks = w.chunks) :
    w'.ledger = w.ledger := by
  unfold ledger
  rw [hl, hc]

namespace Ledger

/-- The decision about a message. -/
def decide (L : Ledger) (raw : RawEnvelope) : Decision :=
  Decision.about raw (L.logged.contains ⟨raw.messageId, raw.endpoint.name⟩)
    (Chunks.ofMessage L.parked raw.messageId)

/-- What a decision makes of a ledger. -/
def carry (L : Ledger) (raw : RawEnvelope) : Decision → Ledger
  | .drop => L
  | .park c => { L with parked := L.parked ++ [c] }
  | .join _ =>
    ⟨L.logged ++ [⟨raw.messageId, raw.endpoint.name⟩],
      L.parked.filter fun c => c.messageId != raw.messageId⟩
  | .pass => { L with logged := L.logged ++ [⟨raw.messageId, raw.endpoint.name⟩] }

end Ledger

/-! ## The ledger that a transaction shows -/

/-- The entries that wait are new to the log, each of them. -/
def LogSession.Exact (s : LogSession) (l : InboundLog) : Prop :=
  LogEntries.append l.items s.pending = s.view l

theorem LogSession.exact_empty (l : InboundLog) : ({} : LogSession).Exact l := by
  unfold Exact
  rw [view_empty]
  rfl

theorem LogSession.Exact.add {s : LogSession} {l : InboundLog} (h : s.Exact l) {e : LogEntry}
    (he : e ∉ s.view l) : (s.add e).Exact l := by
  unfold Exact at h ⊢
  rw [view_add]
  change (s.pending ++ [e]).foldl LogEntries.appendOne l.items = _
  rw [List.foldl_append]
  change LogEntries.appendOne (LogEntries.append l.items s.pending) e = _
  rw [h, LogEntries.appendOne, if_neg (by rwa [List.contains_iff_mem])]

namespace Transaction

/-- What a transaction shows over the stores. -/
def shown (tx : Transaction κ) (l : InboundLog) (c : ChunkStore) : Ledger :=
  ⟨tx.log.view l, tx.chunks.view c⟩

/-- A commit makes of the stores what the transaction shows over them. -/
structure Exact (tx : Transaction κ) (l : InboundLog) (c : ChunkStore) : Prop where
  log : tx.log.Exact l
  chunks : tx.chunks.Exact c

variable {l : InboundLog} {c : ChunkStore} {tx : Transaction κ}

theorem shown_empty (w : World κ) : ({} : Transaction κ).shown w.log w.chunks = w.ledger := by
  unfold shown World.ledger
  rw [LogSession.view_empty, ChunkSession.view_empty]

theorem exact_empty (l : InboundLog) (c : ChunkStore) : ({} : Transaction κ).Exact l c :=
  ⟨LogSession.exact_empty l, ChunkSession.exact_empty c⟩

/-- What a decision makes of a transaction it makes of what the transaction shows. -/
theorem shown_carry (raw : RawEnvelope) (d : Decision) :
    (d.carry raw tx).shown l c = (tx.shown l c).carry raw d := by
  unfold shown
  cases d with
  | drop => rfl
  | park d => exact congrArg (Ledger.mk _) (ChunkSession.view_store _ _ _)
  | join payload => exact congrArg₂ Ledger.mk (LogSession.view_add _ _ _) (ChunkSession.view_cleanup _ _ _)
  | pass => exact congrArg (Ledger.mk · _) (LogSession.view_add _ _ _)

/-- **A commit makes the stores what the transaction shows.** -/
theorem commit_ledger {wire : Wire} {w w' : World κ} (hx : tx.Exact w.log w.chunks)
    (hr : tx.resources = []) (h : tx.commit wire w = .ok () w') :
    w'.ledger = tx.shown w.log w.chunks := by
  obtain ⟨log, chunks, hlog, hchunks, hw⟩ := commit_ok "" hr h
  unfold World.ledger shown
  rw [hw.log, hw.chunks]
  exact congrArg₂ Ledger.mk ((InboundLog.append_items hlog).trans hx.log)
    (hx.chunks.applied hchunks)

end Transaction

namespace Intake

variable {l : InboundLog} {c : ChunkStore} {raw : RawEnvelope} {tx tx' : Transaction κ}
  {o : Option (Bytes × Headers)}

theorem exact (h : Intake l c raw tx o tx') (hx : tx.Exact l c) : tx'.Exact l c := by
  have hadd : tx.log.sees l raw.messageId raw.endpoint.name = .ok false →
      (tx.log.add ⟨raw.messageId, raw.endpoint.name⟩).Exact l := fun hlog =>
    hx.log.add fun hin => Bool.false_ne_true ((LogSession.sees_iff hlog).mpr hin)
  cases h with
  | known => exact hx
  | plain hlog => exact ⟨hadd hlog, hx.chunks⟩
  | held _ _ hsees => exact ⟨hx.log, hx.chunks.take hsees _ _⟩
  | joined hlog _ hsees => exact ⟨hadd hlog, hx.chunks.take hsees _ _⟩

/-- **Taking in a message goes by what the transaction shows.** -/
theorem follows (h : Intake l c raw tx o tx') :
    o = ((tx.shown l c).decide raw).output raw ∧
      tx'.shown l c = (tx.shown l c).carry raw ((tx.shown l c).decide raw) := by
  obtain ⟨known, existing, hlog, hsees, ho, htx⟩ := h.decision
  have hknown : known = (tx.shown l c).logged.contains ⟨raw.messageId, raw.endpoint.name⟩ := by
    rw [Bool.eq_iff_iff, List.contains_iff_mem]
    exact LogSession.sees_iff hlog
  have hd : Decision.about raw known existing = (tx.shown l c).decide raw := by
    unfold Ledger.decide
    rw [← hknown]
    cases known with
    | true => rfl
    | false =>
      cases hchunk : Settlement.isChunk raw.headers with
      | false => rw [Decision.about_plain hchunk, Decision.about_plain hchunk]
      | true => rw [ChunkSession.sees_eq (hsees rfl hchunk)]; rfl
  rw [ho, htx, hd]
  exact ⟨rfl, Transaction.shown_carry raw _⟩

end Intake

/-! ## Settling by the ledger -/

namespace Ledger

variable (endpoint : Endpoint)

/-- The ledger after a message that was received on the endpoint. -/
def next (L : Ledger) (m : RawMessage) : Ledger :=
  match RawEnvelope.ofMessage endpoint m with
  | .error _ => L
  | .ok raw => L.carry raw (L.decide raw)

/-- What the message is settled into: itself if it has no id, and else what the decision about it
lets go on. -/
def settledOne (L : Ledger) (m : RawMessage) : Option RawMessage :=
  match RawEnvelope.ofMessage endpoint m with
  | .error _ => some m
  | .ok raw => ((L.decide raw).output raw).map fun b => { m with payload := b.1, headers := b.2 }

def after (L : Ledger) (ms : List RawMessage) : Ledger := ms.foldl (next endpoint) L

/-- What the messages are settled into, in order. -/
def settled : Ledger → List RawMessage → List RawMessage
  | _, [] => []
  | L, m :: ms => (L.settledOne endpoint m).toList ++ settled (L.next endpoint m) ms

/-- One of the messages completes the chunk set of the id. -/
def Joins (L : Ledger) (ms : List RawMessage) (id : String) : Prop :=
  ∃ before m later raw payload, ms = before ++ m :: later ∧
    RawEnvelope.ofMessage endpoint m = .ok raw ∧ raw.messageId = id ∧
    (L.after endpoint before).decide raw = .join payload

/-- One of the messages is parked as the chunk. -/
def Parks (L : Ledger) (ms : List RawMessage) (c : Chunk) : Prop :=
  ∃ before m later raw, ms = before ++ m :: later ∧
    RawEnvelope.ofMessage endpoint m = .ok raw ∧ (L.after endpoint before).decide raw = .park c

/-- What a message goes on as where the ledger is: as it was delivered, if it has no id or its headers
give no position in a chunk set, or as what the chunks of its set are joined into, without the chunk
headers. -/
inductive GoesOn (L : Ledger) (m : RawMessage) : RawMessage → Prop
  | nameless (hid : m.headers.get? Headers.messageId = none) : GoesOn L m m
  | plain (hchunk : Settlement.isChunk m.headers = false) : GoesOn L m m
  | joined {id : String} {position : ChunkHeaders} {count : UInt32}
    (hid : m.headers.get? Headers.messageId = some id)
    (hread : ChunkHeaders.read m.headers = .ok (some position)) :
    GoesOn L m { m with
      payload := join (Chunks.ofMessage L.parked id ++ [⟨id, position.index, count, m.payload⟩])
      headers := ChunkHeaders.remove m.headers }

variable {endpoint} {L : Ledger} {m m' : RawMessage} {ms : List RawMessage} {id : String}

theorem next_ok {raw : RawEnvelope} (h : RawEnvelope.ofMessage endpoint m = .ok raw) :
    L.next endpoint m = L.carry raw (L.decide raw) := by
  unfold next
  rw [h]

theorem settledOne_ok {raw : RawEnvelope} (h : RawEnvelope.ofMessage endpoint m = .ok raw) :
    L.settledOne endpoint m =
      ((L.decide raw).output raw).map fun b => { m with payload := b.1, headers := b.2 } := by
  unfold settledOne
  rw [h]

/-- A message that is logged is dropped. -/
theorem decide_logged {raw : RawEnvelope} (h : ⟨raw.messageId, raw.endpoint.name⟩ ∈ L.logged) :
    L.decide raw = .drop := by
  unfold decide
  rw [List.contains_iff_mem.mpr h]
  exact Decision.about_known

theorem mem_carry {raw : RawEnvelope} (d : Decision) {e : LogEntry} (h : e ∈ L.logged) :
    e ∈ (L.carry raw d).logged := by
  cases d with
  | drop => exact h
  | park c => exact h
  | join payload => exact List.mem_append_left _ h
  | pass => exact List.mem_append_left _ h

theorem mem_next {e : LogEntry} (h : e ∈ L.logged) : e ∈ (L.next endpoint m).logged := by
  unfold next
  split
  · exact h
  · exact mem_carry _ h

/-- The log only grows. -/
theorem mem_after {e : LogEntry} (h : e ∈ L.logged) (ms : List RawMessage) :
    e ∈ (L.after endpoint ms).logged := by
  unfold after
  induction ms generalizing L with
  | nil => exact h
  | cons m ms ih => exact ih (mem_next h)

theorem settledOne_logged (h : L.settledOne endpoint m = some m')
    (hid : m'.headers.get? Headers.messageId = some id) :
    ⟨id, endpoint.name⟩ ∈ (L.next endpoint m).logged := by
  cases hraw : RawEnvelope.ofMessage endpoint m with
  | error e =>
    unfold settledOne at h
    rw [hraw] at h
    cases h
    rw [Settlement.ofMessage_error hraw] at hid
    cases hid
  | ok raw =>
    rw [settledOne_ok hraw] at h
    rw [next_ok hraw]
    obtain ⟨id', hid', rfl⟩ := Settlement.ofMessage_ok hraw
    -- only what is logged goes on, under the id of the message
    cases hd : L.decide ⟨m.payload, m.headers, endpoint, m.offset, id'⟩ with
    | drop => rw [hd] at h; cases h
    | park c => rw [hd] at h; cases h
    | join payload =>
      rw [hd] at h
      cases h
      dsimp only at hid
      rw [ChunkHeaders.messageId_remove, hid'] at hid
      cases hid
      exact List.mem_append_right _ List.mem_cons_self
    | pass =>
      rw [hd] at h
      cases h
      dsimp only at hid
      rw [hid'] at hid
      cases hid
      exact List.mem_append_right _ List.mem_cons_self

/-- **What is settled is logged.** -/
theorem settled_logged (h : m' ∈ L.settled endpoint ms)
    (hid : m'.headers.get? Headers.messageId = some id) :
    ⟨id, endpoint.name⟩ ∈ (L.after endpoint ms).logged := by
  induction ms generalizing L with
  | nil => cases h
  | cons m ms ih =>
    rcases List.mem_append.mp h with h | h
    · exact mem_after (settledOne_logged (Option.mem_toList.mp h) hid) ms
    · exact ih h

theorem settledOne_goesOn (h : L.settledOne endpoint m = some m') : L.GoesOn m m' := by
  cases hraw : RawEnvelope.ofMessage endpoint m with
  | error e =>
    unfold settledOne at h
    rw [hraw] at h
    cases h
    exact .nameless (Settlement.ofMessage_error hraw)
  | ok raw =>
    rw [settledOne_ok hraw] at h
    obtain ⟨id, hid, rfl⟩ := Settlement.ofMessage_ok hraw
    cases hd : L.decide ⟨m.payload, m.headers, endpoint, m.offset, id⟩ with
    | drop => rw [hd] at h; cases h
    | park c => rw [hd] at h; cases h
    | join payload =>
      rw [hd] at h
      cases h
      obtain ⟨position, count, hread, rfl⟩ := Decision.about_join hd
      exact .joined hid hread
    | pass =>
      rw [hd] at h
      cases h
      exact .plain (Decision.about_pass hd)

/-- **What is settled goes on** as the ledger has it when its turn comes. -/
theorem settled_goesOn (h : m' ∈ L.settled endpoint ms) :
    ∃ before m later, ms = before ++ m :: later ∧ (L.after endpoint before).GoesOn m m' := by
  induction ms generalizing L with
  | nil => cases h
  | cons m ms ih =>
    rcases List.mem_append.mp h with h | h
    · exact ⟨[], m, ms, rfl, settledOne_goesOn (Option.mem_toList.mp h)⟩
    · obtain ⟨before, m'', later, rfl, hgoes⟩ := ih h
      exact ⟨m :: before, m'', later, rfl, hgoes⟩

/-! ### Chunk sets -/

theorem Joins.tail (h : (L.next endpoint m).Joins endpoint ms id) :
    L.Joins endpoint (m :: ms) id := by
  obtain ⟨before, m', later, raw, payload, rfl, hraw, hid, hd⟩ := h
  exact ⟨m :: before, m', later, raw, payload, rfl, hraw, hid, hd⟩

/-- No chunk is parked of a message that is logged. -/
def Finished (endpoint : Endpoint) (id : String) (L : Ledger) : Prop :=
  ⟨id, endpoint.name⟩ ∈ L.logged ∧ ∀ c ∈ L.parked, c.messageId ≠ id

/-- A chunk is parked under the id of its message. -/
theorem decide_park {raw : RawEnvelope} {c : Chunk} (h : L.decide raw = .park c) :
    c.messageId = raw.messageId := by
  unfold decide Decision.about at h
  split at h
  · cases h
  · split at h
    · split at h
      · cases h
      · next ha =>
        cases h
        exact ChunkSession.arrive_parked ha
      · cases h
    · cases h

theorem Finished.next (h : L.Finished endpoint id) (m : RawMessage) :
    (L.next endpoint m).Finished endpoint id := by
  refine ⟨mem_next h.1, ?_⟩
  unfold Ledger.next
  cases hraw : RawEnvelope.ofMessage endpoint m with
  | error e => exact h.2
  | ok raw =>
    dsimp only
    cases hd : L.decide raw with
    | drop => exact h.2
    | pass => exact h.2
    | join payload => exact fun c hc => h.2 c (List.mem_filter.mp hc).1
    | park d =>
      intro c hc
      rcases List.mem_append.mp hc with hc | hc
      · exact h.2 c hc
      · -- it would be a chunk of a message that is not logged
        rw [List.mem_singleton.mp hc, decide_park hd]
        rintro rfl
        obtain ⟨id', -, rfl⟩ := Settlement.ofMessage_ok hraw
        rw [decide_logged h.1] at hd
        cases hd

theorem Finished.after (h : L.Finished endpoint id) (ms : List RawMessage) :
    (L.after endpoint ms).Finished endpoint id := by
  unfold Ledger.after
  induction ms generalizing L with
  | nil => exact h
  | cons m ms ih => exact ih (h.next m)

/-- **No chunk is left of a set that was joined.** -/
theorem joins_gone (h : L.Joins endpoint ms id) :
    ∀ c ∈ (L.after endpoint ms).parked, c.messageId ≠ id := by
  obtain ⟨before, m, later, raw, payload, rfl, hraw, rfl, hd⟩ := h
  have hfinished : ((L.after endpoint before).next endpoint m).Finished endpoint raw.messageId := by
    rw [next_ok hraw, hd]
    obtain ⟨id', -, rfl⟩ := Settlement.ofMessage_ok hraw
    refine ⟨List.mem_append_right _ List.mem_cons_self, fun c hc => ?_⟩
    simpa using (List.mem_filter.mp hc).2
  have hafter : L.after endpoint (before ++ m :: later) =
      ((L.after endpoint before).next endpoint m).after endpoint later := List.foldl_append
  rw [hafter]
  exact (hfinished.after later).2

theorem next_kept {c : Chunk} (hc : c ∈ L.parked)
    (h : ∀ raw payload, RawEnvelope.ofMessage endpoint m = .ok raw → raw.messageId = c.messageId →
      L.decide raw ≠ .join payload) : c ∈ (L.next endpoint m).parked := by
  unfold next
  cases hraw : RawEnvelope.ofMessage endpoint m with
  | error e => exact hc
  | ok raw =>
    dsimp only
    cases hd : L.decide raw with
    | drop => exact hc
    | pass => exact hc
    | park d => exact List.mem_append_left _ hc
    | join payload =>
      refine List.mem_filter.mpr ⟨hc, bne_iff_ne.mpr fun hid => ?_⟩
      exact h raw payload hraw hid.symm hd

/-- **Every chunk is kept of a set that was not joined.** -/
theorem unjoined_kept {c : Chunk} (hc : c ∈ L.parked ∨ L.Parks endpoint ms c)
    (h : ¬ L.Joins endpoint ms c.messageId) : c ∈ (L.after endpoint ms).parked := by
  induction ms generalizing L with
  | nil =>
    refine hc.elim id ?_
    rintro ⟨before, m, later, raw, heq, -⟩
    simp at heq
  | cons m ms ih =>
    refine ih ?_ fun hj => h hj.tail
    rcases hc with hc | ⟨_ | ⟨m', before⟩, m'', later, raw, heq, hraw, hd⟩
    · refine Or.inl (next_kept hc fun raw payload hraw hid hd => h ?_)
      exact ⟨[], m, ms, raw, payload, rfl, hraw, hid, hd⟩
    · cases heq
      refine Or.inl ?_
      rw [next_ok hraw, show L.decide raw = .park c from hd]
      exact List.mem_append_right _ List.mem_cons_self
    · cases heq
      exact Or.inr ⟨before, m'', later, raw, rfl, hraw, hd⟩

/-! ### Marked messages -/

theorem decide_insert (raw : RawEnvelope) (value : String) :
    L.decide { raw with headers := raw.headers.insert Headers.failedAttempts value } =
      L.decide raw := by
  unfold decide Decision.about
  rw [ChunkHeaders.read_insert _ ChunkHeaders.foreign_failedAttempts]

theorem carry_insert (raw : RawEnvelope) (value : String) (d : Decision) :
    L.carry { raw with headers := raw.headers.insert Headers.failedAttempts value } d =
      L.carry raw d := by
  cases d <;> rfl

theorem next_insert (L : Ledger) (m : RawMessage) (value : String) :
    L.next endpoint { m with headers := m.headers.insert Headers.failedAttempts value } =
      L.next endpoint m := by
  cases hraw : RawEnvelope.ofMessage endpoint m with
  | error e =>
    unfold next
    rw [hraw, RawEnvelope.ofMessage_insert_error hraw (by decide)]
  | ok raw =>
    rw [next_ok hraw, next_ok (RawEnvelope.ofMessage_insert hraw (by decide) value), decide_insert,
      carry_insert]

theorem settledOne_insert (L : Ledger) (m : RawMessage) (value : String) :
    L.settledOne endpoint { m with headers := m.headers.insert Headers.failedAttempts value } =
      (L.settledOne endpoint m).map fun m =>
        { m with headers := m.headers.insert Headers.failedAttempts value } := by
  cases hraw : RawEnvelope.ofMessage endpoint m with
  | error e =>
    unfold settledOne
    rw [hraw, RawEnvelope.ofMessage_insert_error hraw (by decide)]
    rfl
  | ok raw =>
    rw [settledOne_ok hraw, settledOne_ok (RawEnvelope.ofMessage_insert hraw (by decide) value),
      decide_insert]
    obtain ⟨id, -, rfl⟩ := Settlement.ofMessage_ok hraw
    cases L.decide ⟨m.payload, m.headers, endpoint, m.offset, id⟩ with
    | drop => rfl
    | park c => rfl
    | pass => rfl
    | join payload =>
      unfold Decision.output
      dsimp only [Option.map_some]
      rw [ChunkHeaders.remove_insert _ ChunkHeaders.foreign_failedAttempts]

/-- **Marking messages with their failures makes no difference to the ledger.** -/
theorem after_marked (L : Ledger) (failed : UInt32) (ms : List RawMessage) :
    L.after endpoint (Attempt.marked failed ms) = L.after endpoint ms := by
  unfold after Attempt.marked
  rw [List.foldl_map]
  congr 1
  funext L m
  exact next_insert L m _

/-- Marked messages are settled into those that the messages are settled into, marked. -/
theorem settled_marked (L : Ledger) (failed : UInt32) (ms : List RawMessage) :
    L.settled endpoint (Attempt.marked failed ms) =
      Attempt.marked failed (L.settled endpoint ms) := by
  induction ms generalizing L with
  | nil => rfl
  | cons m ms ih =>
    change (L.settledOne endpoint { m with headers := _ }).toList ++
      settled endpoint (L.next endpoint { m with headers := _ }) (Attempt.marked failed ms) = _
    rw [settledOne_insert, next_insert, ih, Option.toList_map]
    exact List.map_append.symm

end Ledger

namespace Settlement

variable {endpoint : Endpoint}

theorem one_follows {m : RawMessage} {r : Option RawMessage} {s t : Inbox κ}
    (h : one endpoint m s = .ok r t) (hx : s.transaction.Exact s.world.log s.world.chunks) :
    let L := s.transaction.shown s.world.log s.world.chunks
    r = L.settledOne endpoint m ∧
      t.transaction.shown s.world.log s.world.chunks = L.next endpoint m ∧
      t.transaction.Exact s.world.log s.world.chunks := by
  intro L
  have hone := (one_ok h).2
  cases hraw : RawEnvelope.ofMessage endpoint m with
  | error e =>
    rw [hraw] at hone
    obtain ⟨rfl, rfl⟩ := hone
    unfold Ledger.settledOne Ledger.next
    rw [hraw]
    exact ⟨rfl, rfl, hx⟩
  | ok raw =>
    rw [hraw] at hone
    obtain ⟨o, hin, rfl⟩ := hone
    obtain ⟨rfl, hshown⟩ := hin.follows
    rw [Ledger.settledOne_ok hraw, Ledger.next_ok hraw]
    exact ⟨rfl, hshown, hin.exact hx⟩

/-- **Settling goes by the ledger.** -/
theorem many_follows {ms settled : List RawMessage} {s t : Inbox κ}
    (h : many endpoint ms s = .ok settled t)
    (hx : s.transaction.Exact s.world.log s.world.chunks) :
    let L := s.transaction.shown s.world.log s.world.chunks
    settled = L.settled endpoint ms ∧
      t.transaction.shown s.world.log s.world.chunks = L.after endpoint ms ∧
      t.transaction.Exact s.world.log s.world.chunks := by
  induction ms generalizing settled s with
  | nil =>
    cases h
    exact ⟨rfl, rfl, hx⟩
  | cons m ms ih =>
    obtain ⟨first, u, hfirst, h1⟩ := bind_ok h
    obtain ⟨rest, v, hrest, h2⟩ := bind_ok h1
    cases h2
    obtain ⟨rfl, hshown, hx'⟩ := one_follows hfirst hx
    -- the stores are the same for the others
    have hw := (one_ok hfirst).1
    have hothers := ih hrest (by rwa [hw.log, hw.chunks])
    rw [hw.log, hw.chunks, hshown] at hothers
    obtain ⟨rfl, hafter, hx''⟩ := hothers
    exact ⟨rfl, hafter, hx''⟩

end Settlement

end Relay
