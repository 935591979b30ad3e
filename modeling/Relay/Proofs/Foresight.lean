import Relay.Proofs.Reliability
/-!
# What a commit will make true

The sessions of a transaction buffer changes of the stores and show the stores as they will be.
`Exact` says that the commit of a chunk session makes of a store just what the session shows of it.
A store drops a chunk whose id and index it holds, and a commit cleans up first, in whatever order
the calls were made; `Exact` holds all the same, as a chunk is parked only beside chunks of other
indexes, and dropping an id from what was stored is storing what is left without it
(`Chunks.store_filter`).

Results:
- `ChunkSession.Exact.take`: taking in a chunk keeps a session exact.
- `SessionCall.run_foreseeing`, `runAll_foreseeing`: so does every call on the sessions, and it
  writes nothing to the stores.
- `Transaction.reads_foresee`: after any calls the sessions answer what the stores answer once
  they have committed; rolled back, they answer what the stores answered before.
-/
namespace Relay

open World (Alike)

variable {κ : Type}

/-! ## Chunks and what tells them apart -/

def Chunk.key (c : Chunk) : String × UInt32 := (c.messageId, c.index)

namespace Chunks

variable {cs new : List Chunk}

/-- No id and index are there twice. -/
def Distinct (cs : List Chunk) : Prop := (cs.map Chunk.key).Nodup

instance (cs : List Chunk) : Decidable (Distinct cs) :=
  inferInstanceAs (Decidable (cs.map Chunk.key).Nodup)

theorem storeOne_distinct (h : Distinct cs) (c : Chunk) : Distinct (storeOne cs c) := by
  unfold storeOne
  split
  · exact h
  · next hany =>
    unfold Distinct
    rw [List.map_append, List.map_singleton, ← List.concat_eq_append]
    refine h.concat fun hkey => hany ?_
    obtain ⟨d, hd, he⟩ := List.mem_map.mp hkey
    have hsame : d.sameKey c = true :=
      sameKey_iff.mpr ⟨congrArg Prod.fst he, congrArg Prod.snd he⟩
    exact List.any_eq_true.mpr ⟨d, hd, hsame⟩

theorem store_distinct (h : Distinct cs) (new : List Chunk) : Distinct (store cs new) := by
  unfold store
  induction new generalizing cs with
  | nil => exact h
  | cons c new ih => exact ih (storeOne_distinct h c)

theorem cleanup_distinct (h : Distinct cs) (ids : List String) : Distinct (cleanup cs ids) :=
  List.Nodup.sublist (List.filter_sublist.map Chunk.key) h

theorem storeOne_new {c : Chunk} (h : ∀ d ∈ cs, d.sameKey c = false) : storeOne cs c = cs ++ [c] := by
  unfold storeOne
  rw [if_neg]
  intro hany
  obtain ⟨d, hd, hsame⟩ := List.any_eq_true.mp hany
  rw [h d hd] at hsame
  cases hsame

section
variable {p : Chunk → Bool}

theorem storeOne_filter (hp : ∀ c d : Chunk, c.messageId = d.messageId → p c = p d)
    (cs : List Chunk) (c : Chunk) :
    (storeOne cs c).filter p = if p c then storeOne (cs.filter p) c else cs.filter p := by
  unfold storeOne
  by_cases hc : p c = true
  · have hany : (cs.filter p).any (Chunk.sameKey · c) = cs.any (Chunk.sameKey · c) := by
      rw [Bool.eq_iff_iff, List.any_eq_true, List.any_eq_true]
      constructor
      · rintro ⟨d, hd, hsame⟩
        exact ⟨d, List.mem_of_mem_filter hd, hsame⟩
      · rintro ⟨d, hd, hsame⟩
        have hpd : p d = true := (hp d c (sameKey_iff.mp hsame).1).trans hc
        exact ⟨d, List.mem_filter.mpr ⟨hd, hpd⟩, hsame⟩
    rw [if_pos hc, hany]
    split
    · rfl
    · rw [List.filter_append, List.filter_cons_of_pos hc, List.filter_nil]
  · rw [if_neg hc]
    split
    · rfl
    · rw [List.filter_append, List.filter_cons_of_neg hc, List.filter_nil, List.append_nil]

/-- Of chunks that are chosen by their ids it makes no difference when they are chosen. -/
theorem store_filter (hp : ∀ c d : Chunk, c.messageId = d.messageId → p c = p d)
    (cs new : List Chunk) : (store cs new).filter p = store (cs.filter p) (new.filter p) := by
  unfold store
  induction new generalizing cs with
  | nil => rfl
  | cons c new ih =>
    rw [List.foldl_cons, ih, storeOne_filter hp]
    by_cases hc : p c = true
    · rw [if_pos hc, List.filter_cons_of_pos hc, List.foldl_cons]
    · rw [if_neg hc, List.filter_cons_of_neg hc]

end

end Chunks

/-! ## Exact sessions -/

namespace ChunkSession

variable {s : ChunkSession} {c : ChunkStore}

/-- A commit makes of the store what the session shows of it. -/
def Exact (s : ChunkSession) (c : ChunkStore) : Prop :=
  Chunks.store (Chunks.cleanup c.items s.cleaned) s.stored = s.view c

theorem exact_empty (c : ChunkStore) : ({} : ChunkSession).Exact c := by
  unfold Exact view
  rw [List.append_nil]
  rfl

theorem Exact.store (h : s.Exact c) {d : Chunk} (hd : ∀ e ∈ s.view c, e.sameKey d = false) :
    (s.store d).Exact c := by
  unfold Exact at h ⊢
  rw [view_store]
  change (s.stored ++ [d]).foldl Chunks.storeOne (Chunks.cleanup c.items s.cleaned) = _
  rw [List.foldl_append]
  change Chunks.storeOne (Chunks.store (Chunks.cleanup c.items s.cleaned) s.stored) d = _
  rw [h, Chunks.storeOne_new hd]

theorem Exact.cleanup (h : s.Exact c) (id : String) : (s.cleanup id).Exact c := by
  have hp : ∀ d e : Chunk, d.messageId = e.messageId → (d.messageId != id) = (e.messageId != id) :=
    fun d e he => by rw [he]
  unfold Exact at h ⊢
  rw [view_cleanup, ← h, Chunks.store_filter hp, ← cleanup_insertId]
  rfl

theorem Exact.take (h : s.Exact c) {id : String} {existing : List Chunk}
    (hsees : s.sees c id = .ok existing) (position : ChunkHeaders) (payload : Bytes) :
    (s.take existing id position payload).2.Exact c := by
  by_cases hdup : ∃ d ∈ existing, d.index = position.index
  · obtain ⟨d, hd, hindex⟩ := hdup
    rw [s.take_duplicate id payload hd hindex]
    exact h
  rcases s.take_cases existing id position payload with ⟨hd, -⟩ | ⟨count, ht⟩ | ⟨joined, ht⟩
  · exact absurd hd hdup
  · rw [ht]
    refine h.store fun e he => Bool.eq_false_iff.mpr fun hsame => hdup ?_
    obtain ⟨hid, hindex⟩ := Chunks.sameKey_iff.mp hsame
    have hmem : e ∈ Chunks.ofMessage (s.view c) id := List.mem_filter.mpr ⟨he, beq_iff_eq.mpr hid⟩
    exact ⟨e, sees_eq hsees ▸ hmem, hindex⟩
  · rw [ht]
    exact h.cleanup id

theorem Exact.applied {c' : ChunkStore} (h : s.Exact c) (ha : s.applied c = .ok c') :
    c'.items = s.view c := (applied_items ha).trans h

theorem Exact.view_distinct (h : s.Exact c) (hc : Chunks.Distinct c.items) :
    Chunks.Distinct (s.view c) := by
  rw [← h]
  exact Chunks.store_distinct (Chunks.cleanup_distinct hc _) _

end ChunkSession

/-! ## Reading through a session -/

namespace World

variable {w : World κ}

theorem getChunks_reliable (hw : w.Reliable) (id : String) :
    (getChunks id : Op κ StoreError _) w = .ok (Chunks.ofMessage w.chunks.items id) w := by
  obtain ⟨cs, hcs⟩ := hw.chunks
  unfold getChunks
  rw [bind_of_ok (guardStore_pass hw.rules _ _), bind_get, hcs]
  rfl

theorem countChunks_reliable (hw : w.Reliable) (id : String) :
    (countChunks id : Op κ StoreError _) w =
      .ok (Chunks.ofMessage w.chunks.items id).length w := by
  obtain ⟨cs, hcs⟩ := hw.chunks
  unfold countChunks
  rw [bind_of_ok (guardStore_pass hw.rules _ _), bind_get, hcs]
  rfl

theorem logContains_reliable (hw : w.Reliable) (id endpoint : String) :
    (logContains id endpoint : Op κ StoreError _) w =
      .ok (w.log.items.contains ⟨id, endpoint⟩) w := by
  obtain ⟨es, hes⟩ := hw.log
  unfold logContains
  rw [bind_of_ok (guardStore_pass hw.rules _ _), bind_get, hes]
  rfl

end World

section
variable {w : World κ}

theorem ChunkSession.get_reliable (hw : w.Reliable) (s : ChunkSession) (id : String) :
    s.get id w = .ok (Chunks.ofMessage (s.view w.chunks) id) w := by
  rw [get_eq, ofMessage_view]
  split
  · rfl
  · rw [bind_of_ok (World.getChunks_reliable hw id)]
    rfl

theorem ChunkSession.count_reliable (hw : w.Reliable) (s : ChunkSession) (id : String) :
    s.count id w = .ok (Chunks.ofMessage (s.view w.chunks) id).length w := by
  unfold count
  rw [ofMessage_view, List.length_append]
  split
  · rfl
  · rw [bind_of_ok (World.countChunks_reliable hw id)]
    rfl

theorem LogSession.contains_reliable (hw : w.Reliable) (s : LogSession) (id endpoint : String) :
    s.contains id endpoint w = .ok ((s.view w.log).contains ⟨id, endpoint⟩) w := by
  have hview : (s.view w.log).contains ⟨id, endpoint⟩ =
      (w.log.items.contains ⟨id, endpoint⟩ || s.pending.contains ⟨id, endpoint⟩) := by
    rw [Bool.eq_iff_iff, Bool.or_eq_true]
    simp only [List.contains_iff_mem]
    exact List.mem_append
  rw [hview]
  unfold contains
  split
  · next hp =>
    rw [hp, Bool.or_true]
    rfl
  · next hp =>
    rw [World.logContains_reliable hw, Bool.eq_false_iff.mpr hp, Bool.or_false]

end

/-! ## Calls on the sessions of a transaction -/

/-- A call on the sessions of a transaction that changes them. -/
inductive SessionCall
  | aggregate (envelope : RawEnvelope)
  | cleanup (id : String)
  | add (e : LogEntry)

namespace SessionCall

/-- What a call leaves, whether it succeeds or fails. -/
def run (s : Inbox κ) : SessionCall → Inbox κ
  | .aggregate envelope => endState (Inbound.aggregate envelope) s
  | .cleanup id =>
    { s with transaction := { s.transaction with chunks := s.transaction.chunks.cleanup id } }
  | .add e => { s with transaction := { s.transaction with log := s.transaction.log.add e } }

def runAll (calls : List SessionCall) (s : Inbox κ) : Inbox κ := calls.foldl run s

/-- Nothing was written to the stores of the world, and the chunk session is exact over them. -/
structure Foreseeing (w : World κ) (s : Inbox κ) : Prop where
  alike : Alike w s.world
  exact : s.transaction.chunks.Exact w.chunks

variable {w : World κ} {s : Inbox κ}

theorem run_foreseeing (h : Foreseeing w s) (call : SessionCall) : Foreseeing w (call.run s) := by
  cases call with
  | add e => exact ⟨h.alike, h.exact⟩
  | cleanup id => exact ⟨h.alike, h.exact.cleanup id⟩
  | aggregate envelope =>
    have hrun : (aggregate envelope).run s = endState (Inbound.aggregate envelope) s := rfl
    rw [hrun]
    cases ha : Inbound.aggregate envelope s with
    | ok joined t =>
      obtain ⟨position, existing, -, hsees, -, ht, hw⟩ := Inbound.aggregate_ok ha
      rw [endState, ha]
      refine ⟨h.alike.trans hw, ?_⟩
      rw [ht]
      rw [h.alike.chunks] at hsees
      exact h.exact.take hsees position envelope.payload
    | error e t =>
      obtain ⟨ht, hw⟩ := Inbound.aggregate_untouched ha
      rw [endState_of_error ha]
      exact ⟨h.alike.trans hw, ht ▸ h.exact⟩

theorem runAll_foreseeing (h : Foreseeing w s) (calls : List SessionCall) :
    Foreseeing w (runAll calls s) := by
  unfold runAll
  induction calls generalizing s with
  | nil => exact h
  | cons call calls ih => exact ih (run_foreseeing h call)

end SessionCall

/-! ## Answers before and after a commit -/

/-- No entry is in the log twice, and no id and index in the chunk store. -/
structure World.Distinct (w : World κ) : Prop where
  log : w.log.items.Nodup
  chunks : Chunks.Distinct w.chunks.items

namespace Transaction

/-- What the sessions of a transaction answer in a world is what the stores of another world
answer, and asking changes nothing. -/
structure Foresees (tx : Transaction κ) (w v : World κ) : Prop where
  chunks : ∀ id, ∃ cs, tx.chunks.get id w = .ok cs w ∧ v.chunks.get id = .ok cs
  count : ∀ id, ∃ n, tx.chunks.count id w = .ok n w ∧ v.chunks.count id = .ok n
  log : ∀ id endpoint, ∃ known, tx.log.contains id endpoint w = .ok known w ∧
    v.log.contains id endpoint = .ok known

variable {tx : Transaction κ} {w v : World κ}

theorem foresees (hw : w.Reliable) (hv : v.Reliable)
    (hchunks : v.chunks.items = tx.chunks.view w.chunks)
    (hlog : ∀ e, e ∈ v.log.items ↔ e ∈ tx.log.view w.log) : tx.Foresees w v := by
  obtain ⟨es, hes⟩ := hv.log
  obtain ⟨cs, hcs⟩ := hv.chunks
  rw [hcs] at hchunks
  rw [hes] at hlog
  change cs = _ at hchunks
  change ∀ e, e ∈ es ↔ _ at hlog
  refine ⟨fun id => ?_, fun id => ?_, fun id endpoint => ?_⟩
  · refine ⟨_, tx.chunks.get_reliable hw id, ?_⟩
    rw [hcs, hchunks]
    rfl
  · refine ⟨_, tx.chunks.count_reliable hw id, ?_⟩
    rw [hcs, hchunks]
    rfl
  · refine ⟨_, tx.log.contains_reliable hw id endpoint, ?_⟩
    rw [hes]
    refine congrArg Except.ok ?_
    rw [Bool.eq_iff_iff, List.contains_iff_mem, List.contains_iff_mem]
    exact hlog _

/-- An exact session commits, and the stores then answer what the transaction has shown. -/
theorem commit_foreseen (hw : w.Reliable) (hd : w.Distinct) (hx : tx.chunks.Exact w.chunks) :
    ∃ log chunks u v, tx.log.commit w = .ok log u ∧ tx.chunks.commit u = .ok chunks v ∧
      tx.Foresees w v ∧ v.Distinct ∧
      log.commit v = .ok log v ∧ chunks.commit v = .ok chunks v := by
  obtain ⟨log, u, hlog, hu⟩ := tx.log.commit_assured.exists_ok hw
  obtain ⟨chunks, v, hchunks, hv⟩ := tx.chunks.commit_assured.exists_ok hu
  obtain ⟨log', happend, hwu⟩ := LogSession.commit_ok hlog
  obtain ⟨chunks', happly, huv⟩ := ChunkSession.commit_ok hchunks
  rw [hwu.chunks] at happly
  have hitems : v.chunks.items = tx.chunks.view w.chunks := by
    rw [huv.chunks]
    exact hx.applied happly
  have hentries : v.log.items = LogEntries.append w.log.items tx.log.pending := by
    rw [huv.log]
    change u.log.items = _
    rw [hwu.log]
    exact InboundLog.append_items happend
  have hempty : log = {} ∧ chunks = {} :=
    ⟨LogSession.commit_empty hlog, ChunkSession.commit_empty hchunks⟩
  refine ⟨log, chunks, u, v, hlog, hchunks, foresees hw hv hitems fun e => ?_, ⟨?_, ?_⟩, ?_, ?_⟩
  · rw [hentries, LogEntries.mem_append, ← List.mem_append]
    rfl
  · rw [hentries]
    exact LogEntries.append_nodup hd.log _
  · rw [hitems]
    exact hx.view_distinct hd.chunks
  · rw [hempty.1]
    rfl
  · rw [hempty.2]
    rfl

/-- **Reads through a transaction see what its commit will make true.** With the stores in memory,
in which nothing is twice, and after any calls on the sessions: both sessions commit; what they
answer before is what the stores answer after; nothing is twice in these; and committing again
changes nothing. With a rollback instead the stores are as they were, and what the sessions answer
is what the stores answer. -/
theorem reads_foresee (hw : w.Reliable) (hd : w.Distinct) (calls : List SessionCall) :
    let s := SessionCall.runAll calls ⟨{}, w⟩
    let tx := s.transaction
    (∃ log chunks u v, tx.log.commit s.world = .ok log u ∧ tx.chunks.commit u = .ok chunks v ∧
        tx.Foresees s.world v ∧ v.Distinct ∧
        log.commit v = .ok log v ∧ chunks.commit v = .ok chunks v) ∧
      s.world.log = w.log ∧ s.world.chunks = w.chunks ∧
        { tx with log := tx.log.rollback, chunks := tx.chunks.rollback }.Foresees s.world w := by
  intro s tx
  have hs : SessionCall.Foreseeing w s :=
    SessionCall.runAll_foreseeing ⟨Std.Refl.refl w, ChunkSession.exact_empty _⟩ calls
  have hreliable : s.world.Reliable := hs.alike.reliable hw
  have hdistinct : s.world.Distinct :=
    ⟨hs.alike.log ▸ hd.log, hs.alike.chunks ▸ hd.chunks⟩
  refine ⟨commit_foreseen hreliable hdistinct (hs.alike.chunks ▸ hs.exact), hs.alike.log,
    hs.alike.chunks, foresees hreliable hw ?_ fun e => ?_⟩
  · rw [hs.alike.chunks]
    exact (ChunkSession.view_empty _).symm
  · rw [hs.alike.log]
    change _ ↔ e ∈ ({} : LogSession).view w.log
    rw [LogSession.view_empty]

/-- Stores with a chunk each of the messages `a` and `b`. -/
def halves : World Unit where
  log := .memory [⟨"a", "payments"⟩]
  chunks := .memory [⟨"a", 0, 2, [1]⟩, ⟨"b", 0, 3, [9]⟩]

def piece (id index count : String) (payload : Bytes) : RawEnvelope :=
  ⟨payload, ⟨[(Headers.messageId, id), (Headers.chunkIndex, index), (Headers.chunksCount, count)]⟩,
    ⟨"orders", none, []⟩, none, id⟩

/-- `a` is joined and logged, `b` dropped, and then a chunk of each is parked anew. -/
def reparking : List SessionCall :=
  [.aggregate (piece "a" "1" "2" [2]), .add ⟨"a", "orders"⟩, .cleanup "b",
    .aggregate (piece "a" "1" "3" [3]), .aggregate (piece "b" "2" "4" [4]), .add ⟨"a", "orders"⟩]

theorem reads_foresee_reparked :
    let s := SessionCall.runAll reparking ⟨{}, halves⟩
    halves.Reliable ∧ halves.Distinct ∧ s.transaction.chunks.cleaned = ["a", "b"] ∧
      ∃ log chunks u v, s.transaction.log.commit s.world = .ok log u ∧
        s.transaction.chunks.commit u = .ok chunks v ∧
        v.chunks.get "a" = .ok [⟨"a", 1, 3, [3]⟩] ∧ v.chunks.get "b" = .ok [⟨"b", 2, 4, [4]⟩] ∧
        v.log.contains "a" "orders" = .ok true ∧ v.log.contains "b" "orders" = .ok false := by
  intro s
  have hw : halves.Reliable := ⟨⟨_, rfl⟩, ⟨_, rfl⟩, rfl⟩
  have hd : halves.Distinct := ⟨by decide, by decide⟩
  obtain ⟨⟨log, chunks, u, v, hlog, hchunks, hf, -⟩, -⟩ := reads_foresee hw hd reparking
  refine ⟨hw, hd, by rfl, log, chunks, u, v, hlog, hchunks, ?_, ?_, ?_, ?_⟩
  · obtain ⟨cs, hs, hv⟩ := hf.chunks "a"
    cases hs
    exact hv
  · obtain ⟨cs, hs, hv⟩ := hf.chunks "b"
    cases hs
    exact hv
  · obtain ⟨known, hs, hv⟩ := hf.log "a" "orders"
    cases hs
    exact hv
  · obtain ⟨known, hs, hv⟩ := hf.log "b" "orders"
    cases hs
    exact hv

end Transaction

end Relay
