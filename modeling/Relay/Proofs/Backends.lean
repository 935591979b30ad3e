import Relay.Proofs.Answers
/-!
# The two engines

A `Backend` is an inbound log and a chunk store of one engine. Both engines serve the same queries.
In memory a store is the list of what it holds; in a database it is a table whose primary key keeps an
entry or a chunk from being inserted again, whose rows are read in the order of their numbers, and whose
integer columns are wider than the words in them. `Matches` relates the two: the lists in memory are
what the tables hold.

**Hypotheses.** Of the database it is assumed what `Table` says: a key that is present is not inserted
again, a statement that fails takes the whole transaction back, what was written is read back, and a new
row has a number greater than all that are present. Which number that is, and where the row is put, is
left to the `Filing` of the table, and nothing depends on it.

Results:
- `serve_matches`: a query whose texts a statement can hold (`Query.Writable`) gets the same reply from
  both, and leaves them as alike as it found them.
- `serve_refused`: any other query a database refuses, and stays as it is.
- `replies_alike`: any sequence of writable queries gets the same replies from both, whatever the filing.
-/
namespace Relay

/-! ## What tables and stores answer -/

namespace Table

variable {α : Type} {name : String} {sameKey : α → α → Bool} {texts : α → List String}

/-- A statement with a text that it cannot hold is not run. -/
theorem find_refused {table : Option (Table α)} {ss : List String} {s : String} (hs : s ∈ ss)
    (hno : canHold s = false) : find name table ss = .error .database := by
  unfold find
  rw [if_neg]
  exact fun hall => by rw [List.all_eq_true.mp hall s hs] at hno; cases hno

/-- One such statement among others undoes them all. -/
theorem insertAll_refused {t : Table α} {vs : List α} {v : α} {s : String} (hv : v ∈ vs)
    (hs : s ∈ texts v) (hno : canHold s = false) :
    insertAll name sameKey texts (some t) vs = .error .database := by
  unfold insertAll
  induction vs generalizing t with
  | nil => cases hv
  | cons w vs ih =>
    rw [List.foldlM_cons]
    by_cases hall : (texts w).all canHold = true
    · have hfind : find name (some t) (texts w) = .ok t := find_ok_iff.mpr ⟨hall, rfl⟩
      rw [hfind]
      rcases List.mem_cons.mp hv with rfl | hv
      · rw [List.all_eq_true.mp hall s hs] at hno
        cases hno
      · exact ih hv
    · unfold find
      rw [if_neg hall]
      rfl

end Table

theorem InboundLog.length_items {l : InboundLog} {n : Nat} (h : l.length = .ok n) :
    n = l.items.length := by
  cases l with
  | memory es => cases h; rfl
  | table t =>
    dsimp only [length] at h
    cases hf : Table.find tableName t [] with
    | error e => rw [hf] at h; cases h
    | ok u =>
      rw [hf] at h
      cases h
      rw [Table.find_ok hf, Table.count_items, List.filter_true]
      rfl

theorem ChunkStore.count_items {c : ChunkStore} {id : String} {n : Nat} (h : c.count id = .ok n) :
    n = (Chunks.ofMessage c.items id).length := by
  cases c with
  | memory cs => cases h; rfl
  | table t =>
    dsimp only [count] at h
    cases hf : Table.find tableName t [id] with
    | error e => rw [hf] at h; cases h
    | ok u =>
      rw [hf] at h
      cases h
      rw [Table.find_ok hf, Table.count_items]
      change _ = (Chunks.ofMessage (u.items.map ChunkRow.toChunk) id).length
      rw [ofMessage_rows, List.length_map]

/-! ## Queries -/

/-- The stores of one engine. -/
structure Backend where
  log : InboundLog
  chunks : ChunkStore

namespace Backend

/-- What is asked of the inbound log or of the chunk store. -/
inductive Query
  | append (entries : List LogEntry)
  | known (id endpoint : String)
  | length
  | store (chunks : List Chunk)
  | get (id : String)
  | count (id : String)
  | cleanup (ids : List String)

inductive Reply
  | done
  | truth (b : Bool)
  | number (n : Nat)
  | chunks (cs : List Chunk)
  deriving DecidableEq

/-- The texts in the statements of a query. -/
def Query.texts : Query → List String
  | .append es => es.flatMap fun e => [e.messageId, e.endpoint]
  | .known id endpoint => [id, endpoint]
  | .length => []
  | .store cs => cs.map Chunk.messageId
  | .get id => [id]
  | .count id => [id]
  | .cleanup ids => ids

/-- A statement can hold every text of the query as a literal. -/
def Query.Writable (q : Query) : Prop := ∀ s ∈ q.texts, Table.canHold s = true

instance (q : Query) : Decidable q.Writable := inferInstanceAs (Decidable (∀ s ∈ q.texts, _))

/-- Empty stores, set up where they have to be. -/
def create (s : Storage) : Backend := ⟨.create s, .create s⟩

/-- Empty tables that were set up in a database that files its rows so. -/
def filed (logs : Filing LogEntry) (chunks : Filing ChunkRow) : Backend :=
  ⟨.table (some (.empty logs)), .table (some (.empty chunks))⟩

/-- The reply to a query and the stores after it. -/
def serve (b : Backend) : Query → Except StoreError (Reply × Backend)
  | .append es => (b.log.append es).map fun log => (.done, { b with log := log })
  | .known id endpoint => (b.log.contains id endpoint).map fun known => (.truth known, b)
  | .length => b.log.length.map fun n => (.number n, b)
  | .store cs => (b.chunks.store cs).map fun chunks => (.done, { b with chunks := chunks })
  | .get id => (b.chunks.get id).map fun cs => (.chunks cs, b)
  | .count id => (b.chunks.count id).map fun n => (.number n, b)
  | .cleanup ids => (b.chunks.cleanup ids).map fun chunks => (.done, { b with chunks := chunks })

/-- The replies to queries made one after the other. One that fails leaves the stores as they are. -/
def replies (b : Backend) : List Query → List (Except StoreError Reply)
  | [] => []
  | q :: qs =>
    match b.serve q with
    | .error e => .error e :: replies b qs
    | .ok (r, b') => .ok r :: replies b' qs

/-! ## Tables that are set up -/

variable {m t : Backend} {q : Query}

/-- Both tables are set up. -/
structure Ready (t : Backend) : Prop where
  log : ∃ rows, t.log = .table (some rows)
  chunks : ∃ rows, t.chunks = .table (some rows)

/-- The stores in memory hold what the tables hold, in the same order. -/
structure Matches (m t : Backend) : Prop where
  ready : t.Ready
  log : m.log = .memory t.log.items
  chunks : m.chunks = .memory t.chunks.items

theorem filed_matches (logs : Filing LogEntry) (chunks : Filing ChunkRow) :
    Matches (create .memory) (filed logs chunks) where
  ready := ⟨⟨_, rfl⟩, ⟨_, rfl⟩⟩
  log := congrArg InboundLog.memory (Table.empty_items logs).symm
  chunks := congrArg (fun rows : List ChunkRow => ChunkStore.memory (rows.map ChunkRow.toChunk))
    (Table.empty_items chunks).symm

theorem Ready.answers_log (h : t.Ready) {id endpoint : String} (hid : Table.canHold id = true)
    (he : Table.canHold endpoint = true) : t.log.Answers id endpoint := by
  obtain ⟨rows, hrows⟩ := h.log
  rw [hrows]
  exact InboundLog.answers_table.mpr ⟨by simp [hid, he], rows, rfl⟩

theorem Ready.answers_chunks (h : t.Ready) {id : String} (hid : Table.canHold id = true) :
    t.chunks.Answers id := by
  obtain ⟨rows, hrows⟩ := h.chunks
  rw [hrows]
  exact ChunkStore.answers_table.mpr ⟨hid, rows, rfl⟩

theorem Ready.counts (h : t.Ready) {id : String} (hid : Table.canHold id = true) :
    ∃ n, t.chunks.count id = .ok n := by
  obtain ⟨rows, hrows⟩ := h.chunks
  have hf : Table.find ChunkStore.tableName (some rows) [id] = .ok rows :=
    Table.find_ok_iff.mpr ⟨by simpa using hid, rfl⟩
  rw [hrows]
  dsimp only [ChunkStore.count]
  rw [hf]
  exact ⟨_, rfl⟩

theorem Ready.append (h : t.Ready) {es : List LogEntry} {log : InboundLog}
    (ha : t.log.append es = .ok log) : Ready { t with log := log } := by
  obtain ⟨rows, hrows⟩ := h.log
  rw [hrows] at ha
  obtain ⟨t', hi, rfl⟩ := InboundLog.append_table ha
  obtain ⟨rows', rfl⟩ := Option.isSome_iff_exists.mp (Table.insertAll_isSome hi)
  exact ⟨⟨rows', rfl⟩, h.chunks⟩

theorem Ready.store (h : t.Ready) {cs : List Chunk} {chunks : ChunkStore}
    (hs : t.chunks.store cs = .ok chunks) : Ready { t with chunks := chunks } := by
  obtain ⟨rows, hrows⟩ := h.chunks
  rw [hrows] at hs
  obtain ⟨-, t', rfl, hsome⟩ := ChunkStore.store_table hs
  obtain ⟨rows', rfl⟩ := Option.isSome_iff_exists.mp hsome
  exact ⟨h.log, ⟨rows', rfl⟩⟩

theorem Ready.cleanup (h : t.Ready) {ids : List String} {chunks : ChunkStore}
    (hc : t.chunks.cleanup ids = .ok chunks) : Ready { t with chunks := chunks } := by
  obtain ⟨rows, hrows⟩ := h.chunks
  rw [hrows] at hc
  obtain ⟨-, t', rfl, hsome⟩ := ChunkStore.cleanup_table hc
  obtain ⟨rows', rfl⟩ := Option.isSome_iff_exists.mp hsome
  exact ⟨h.log, ⟨rows', rfl⟩⟩

/-! ## One query -/

namespace Matches

theorem append (h : Matches m t) {es : List LogEntry} (hq : (Query.append es).Writable) :
    ∃ log, t.log.append es = .ok log ∧ m.log.append es = .ok (.memory log.items) := by
  have hanswers : ∀ e ∈ es, t.log.Answers e.messageId e.endpoint := fun e he =>
    h.ready.answers_log (hq _ (List.mem_flatMap.mpr ⟨e, he, by simp⟩))
      (hq _ (List.mem_flatMap.mpr ⟨e, he, by simp⟩))
  obtain ⟨log, ha⟩ := InboundLog.append_answered hanswers
  refine ⟨log, ha, ?_⟩
  rw [h.log, InboundLog.append_items ha]
  rfl

theorem contains (h : Matches m t) {id endpoint : String} (hq : (Query.known id endpoint).Writable) :
    ∃ known, t.log.contains id endpoint = .ok known ∧ m.log.contains id endpoint = .ok known := by
  obtain ⟨known, hk⟩ := h.ready.answers_log (hq id (by simp [Query.texts]))
    (hq endpoint (by simp [Query.texts]))
  have hsame : t.log.items.contains ⟨id, endpoint⟩ = known := by
    rw [Bool.eq_iff_iff, InboundLog.contains_iff hk, List.contains_iff_mem]
  refine ⟨known, hk, ?_⟩
  rw [h.log, ← hsame]
  rfl

theorem length (h : Matches m t) : ∃ n, t.log.length = .ok n ∧ m.log.length = .ok n := by
  obtain ⟨rows, hrows⟩ := h.ready.log
  have hn : t.log.length = .ok (rows.count fun _ => true) := by
    rw [hrows]
    rfl
  refine ⟨_, hn, ?_⟩
  rw [h.log, InboundLog.length_items hn]
  rfl

theorem store (h : Matches m t) {cs : List Chunk} (hq : (Query.store cs).Writable) :
    ∃ chunks, t.chunks.store cs = .ok chunks ∧ m.chunks.store cs = .ok (.memory chunks.items) := by
  have hanswers : ∀ c ∈ cs, t.chunks.Answers c.messageId := fun c hc =>
    h.ready.answers_chunks (hq _ (List.mem_map_of_mem hc))
  obtain ⟨chunks, hs⟩ := ChunkStore.store_answered hanswers
  refine ⟨chunks, hs, ?_⟩
  rw [h.chunks, ChunkStore.store_items hs]
  rfl

/-- The rows are selected in the order of their numbers, which is the order of arrival. -/
theorem get (h : Matches m t) {id : String} (hq : (Query.get id).Writable) :
    ∃ cs, t.chunks.get id = .ok cs ∧ m.chunks.get id = .ok cs := by
  obtain ⟨cs, hg⟩ := h.ready.answers_chunks (hq id (List.mem_singleton_self id))
  refine ⟨cs, hg, ?_⟩
  rw [h.chunks, ChunkStore.get_items hg]
  rfl

theorem count (h : Matches m t) {id : String} (hq : (Query.count id).Writable) :
    ∃ n, t.chunks.count id = .ok n ∧ m.chunks.count id = .ok n := by
  obtain ⟨n, hn⟩ := h.ready.counts (hq id (List.mem_singleton_self id))
  refine ⟨n, hn, ?_⟩
  rw [h.chunks, ChunkStore.count_items hn]
  rfl

theorem cleanup (h : Matches m t) {ids : List String} (hq : (Query.cleanup ids).Writable) :
    ∃ chunks, t.chunks.cleanup ids = .ok chunks ∧
      m.chunks.cleanup ids = .ok (.memory chunks.items) := by
  obtain ⟨chunks, hc, -⟩ := ChunkStore.cleanup_answered fun id hid =>
    h.ready.answers_chunks (hq id hid)
  refine ⟨chunks, hc, ?_⟩
  rw [h.chunks, ChunkStore.cleanup_items hc]
  rfl

end Matches

/-- **A writable query gets the same reply from both engines**, and they still match. -/
theorem serve_matches (h : Matches m t) (hq : q.Writable) :
    ∃ r m' t', m.serve q = .ok (r, m') ∧ t.serve q = .ok (r, t') ∧ Matches m' t' := by
  cases q with
  | append es =>
    obtain ⟨log, ht, hm⟩ := h.append hq
    exact ⟨.done, { m with log := .memory log.items }, { t with log := log },
      congrArg (Except.map _) hm, congrArg (Except.map _) ht, h.ready.append ht, rfl, h.chunks⟩
  | known id endpoint =>
    obtain ⟨known, ht, hm⟩ := h.contains hq
    exact ⟨.truth known, m, t, congrArg (Except.map _) hm, congrArg (Except.map _) ht, h⟩
  | length =>
    obtain ⟨n, ht, hm⟩ := h.length
    exact ⟨.number n, m, t, congrArg (Except.map _) hm, congrArg (Except.map _) ht, h⟩
  | store cs =>
    obtain ⟨chunks, ht, hm⟩ := h.store hq
    exact ⟨.done, { m with chunks := .memory chunks.items }, { t with chunks := chunks },
      congrArg (Except.map _) hm, congrArg (Except.map _) ht, h.ready.store ht, h.log, rfl⟩
  | get id =>
    obtain ⟨cs, ht, hm⟩ := h.get hq
    exact ⟨.chunks cs, m, t, congrArg (Except.map _) hm, congrArg (Except.map _) ht, h⟩
  | count id =>
    obtain ⟨n, ht, hm⟩ := h.count hq
    exact ⟨.number n, m, t, congrArg (Except.map _) hm, congrArg (Except.map _) ht, h⟩
  | cleanup ids =>
    obtain ⟨chunks, ht, hm⟩ := h.cleanup hq
    exact ⟨.done, { m with chunks := .memory chunks.items }, { t with chunks := chunks },
      congrArg (Except.map _) hm, congrArg (Except.map _) ht, h.ready.cleanup ht, h.log, rfl⟩

/-- What cannot be written a database refuses, for whatever queries. -/
theorem serve_refused (h : t.Ready) (hq : ¬ q.Writable) : t.serve q = .error .database := by
  obtain ⟨s, hs, hno⟩ : ∃ s ∈ q.texts, Table.canHold s = false := by
    simpa [Query.Writable] using hq
  obtain ⟨entries, hentries⟩ := h.log
  obtain ⟨rows, hrows⟩ := h.chunks
  cases q with
  | append es =>
    obtain ⟨e, he, hs⟩ := List.mem_flatMap.mp hs
    dsimp only [serve]
    rw [hentries]
    dsimp only [InboundLog.append]
    rw [Table.insertAll_refused he hs hno]
    rfl
  | known id endpoint =>
    dsimp only [serve]
    rw [hentries]
    dsimp only [InboundLog.contains]
    rw [Table.find_refused (show s ∈ [id, endpoint] from hs) hno]
    rfl
  | length => cases hs
  | store cs =>
    obtain ⟨c, hc, rfl⟩ := List.mem_map.mp hs
    dsimp only [serve]
    rw [hrows]
    dsimp only [ChunkStore.store]
    rw [Table.insertAll_refused (List.mem_map_of_mem hc) (List.mem_singleton_self _) hno]
    rfl
  | get id =>
    dsimp only [serve]
    rw [hrows]
    dsimp only [ChunkStore.get]
    rw [Table.find_refused (show s ∈ [id] from hs) hno]
    rfl
  | count id =>
    dsimp only [serve]
    rw [hrows]
    dsimp only [ChunkStore.count]
    rw [Table.find_refused (show s ∈ [id] from hs) hno]
    rfl
  | cleanup ids =>
    have hids : ¬ ids.isEmpty = true := fun he => by
      rw [List.isEmpty_iff.mp he] at hs
      cases hs
    dsimp only [serve]
    rw [hrows]
    dsimp only [ChunkStore.cleanup]
    rw [if_neg hids, Table.find_refused (show s ∈ ids from hs) hno]
    rfl

/-! ## Any queries -/

theorem Matches.replies (h : Matches m t) {qs : List Query} (hqs : ∀ q ∈ qs, q.Writable) :
    ∃ rs : List Reply, m.replies qs = rs.map .ok ∧ t.replies qs = rs.map .ok := by
  induction qs generalizing m t with
  | nil => exact ⟨[], rfl, rfl⟩
  | cons q qs ih =>
    obtain ⟨hq, hqs⟩ := List.forall_mem_cons.mp hqs
    obtain ⟨r, m', t', hm, ht, hmatches⟩ := serve_matches h hq
    obtain ⟨rs, hms, hts⟩ := ih hmatches hqs
    refine ⟨r :: rs, ?_, ?_⟩
    · rw [Backend.replies, hm]
      exact congrArg (Except.ok r :: ·) hms
    · rw [Backend.replies, ht]
      exact congrArg (Except.ok r :: ·) hts

/-- **Both engines behave alike.** Empty stores in memory and the empty tables of a database, wherever
it puts new rows and under whatever numbers greater than those present, give the same replies, of which
none is a failure, to any writable queries to the log and to the chunk store: entries and chunks that
repeat or are stored already, clean-ups of any sets, and words of any size. -/
theorem replies_alike {qs : List Query} (hqs : ∀ q ∈ qs, q.Writable) :
    ∃ rs : List Reply, (create .memory).replies qs = rs.map .ok ∧
      (create (.table true)).replies qs = rs.map .ok ∧
      ∀ logs chunks, (filed logs chunks).replies qs = rs.map .ok := by
  obtain ⟨rs, hmemory, htable⟩ := (filed_matches .atEnd .atEnd).replies hqs
  refine ⟨rs, hmemory, htable, fun logs chunks => ?_⟩
  obtain ⟨rs', hmemory', hfiled⟩ := (filed_matches logs chunks).replies hqs
  rw [hfiled, ← hmemory', hmemory]

/-! ### A set cleaned up and stored again -/

/-- New rows stand before all others, and every second number is left out. -/
def inFront {α : Type} : Filing α where
  number n rows := rows.foldl (fun m r => max m r.1) 0 + 1 + n % 2
  place _ r rows := r :: rows
  number_exceeds n rows r hr := by
    have hle := (Filing.le_foldl_max rows 0).2 r hr
    omega
  place_perm _ _ _ := .refl _

/-- The chunk with the greatest index is parked first and cleaned up; what comes after it takes its row
number. -/
def reparked : List Query :=
  [.append [⟨"a", "orders"⟩, ⟨"a", "orders"⟩, ⟨"a", "bills"⟩], .known "a" "bills", .length,
    .store [⟨"m", 1, 2, [66]⟩, ⟨"n", 4294967295, 4294967295, []⟩, ⟨"m", 1, 9, [88]⟩],
    .cleanup ["n", "k", "n"], .store [⟨"n", 7, 4294967295, [1]⟩, ⟨"m", 0, 2, [65]⟩], .get "m",
    .get "n", .count "m"]

/-- The chunk that was parked first comes out first, also of tables whose first row is the last. -/
theorem replies_alike_reparked :
    (∀ q ∈ reparked, q.Writable) ∧ (filed inFront inFront).replies reparked =
      [.ok .done, .ok (.truth true), .ok (.number 2), .ok .done, .ok .done, .ok .done,
        .ok (.chunks [⟨"m", 1, 2, [66]⟩, ⟨"m", 0, 2, [65]⟩]),
        .ok (.chunks [⟨"n", 7, 4294967295, [1]⟩]), .ok (.number 2)] ∧
      (create (.table true)).replies reparked = (filed inFront inFront).replies reparked := by
  have hwritable : ∀ q ∈ reparked, q.Writable := by decide
  obtain ⟨rs, hmemory, htable, hfiled⟩ := replies_alike hwritable
  refine ⟨hwritable, (hfiled inFront inFront).trans (hmemory.symm.trans ?_),
    htable.trans (hfiled inFront inFront).symm⟩
  rfl

end Backend

end Relay
