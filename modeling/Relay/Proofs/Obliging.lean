import Relay.Proofs.Confinement
/-!
# Calls that go through

A call is `spared` where no rule makes it fail. A store that answers for a message also takes
writes for it (`append_answered`, `cleanup_answered`, `store_answered`). So where calls to the stores
are spared and the stores answer for the messages of a batch, the batch can be settled, committed
and acknowledged (`Settlement.batch_obliging`, `Transaction.commit_obliging`,
`Attempt.acknowledge_obliging`), whichever engine keeps the stores.
-/
namespace Relay

open World (Alike Stores Sends)

variable {κ : Type}

/-! ## Calls that are spared -/

namespace World

/-- No call of the kind is made to fail. -/
def Spares (site : Site) (w : World κ) : Prop := ∀ f, (site, f) ∈ w.plan → f = .pass

theorem Spares.of_plan {site : Site} {w w' : World κ} (h : w.Spares site)
    (hp : w'.plan = w.plan) : w'.Spares site := by
  unfold Spares
  rw [hp]
  exact h

/-- What decides a call is one of the rules for it. -/
theorem strike_mem (site : Site) (key : String) (rs : List Rule) :
    (strike site key rs).1 = .pass ∨
      (site, (strike site key rs).1) ∈ rs.map fun r => (r.site, r.failure) := by
  induction rs with
  | nil => exact Or.inl rfl
  | cons r rs ih =>
    unfold strike
    split
    · next ha =>
      unfold Rule.applies at ha
      simp only [Bool.and_eq_true, beq_iff_eq] at ha
      refine Or.inr ?_
      rw [List.map_cons, ha.1.1]
      exact List.mem_cons_self
    · exact ih.imp id (List.mem_cons_of_mem _)

theorem Spares.strike {site : Site} {w : World κ} (h : w.Spares site) (key : String) :
    (strike site key w.rules).1 = .pass :=
  (strike_mem site key w.rules).elim id fun hm => h _ hm

theorem Spares.guardStore {site : Site} {key : String} {e : StoreError} {w w' : World κ}
    (h : w.Spares site) : guardStore site key w ≠ .error e w' := by
  have hpass := h.strike key
  intro he
  unfold World.guardStore at he
  rcases bind_error he with h0 | ⟨f, u, h0, h1⟩
  · cases h0
  · cases h0
    rw [hpass] at h1
    cases h1

theorem Spares.guardTransport {site : Site} {key : String} {e : TransportError} {w w' : World κ}
    (h : w.Spares site) : guardTransport site key w ≠ .error e w' := by
  have hpass := h.strike key
  intro he
  unfold World.guardTransport at he
  rcases bind_error he with h0 | ⟨f, u, h0, h1⟩
  · cases h0
  · cases h0
    rw [hpass] at h1
    cases h1

theorem Spares.logContains {id endpoint : String} {e : StoreError} {w w' : World κ}
    (h : w.Spares .logExists) (he : logContains id endpoint w = .error e w') :
    w.log.contains id endpoint = .error e := by
  rcases bind_error he with hg | ⟨_, u, hg, h1⟩
  · exact absurd hg h.guardStore
  rw [bind_get] at h1
  rw [← ((guardStore_alike _ _).ok hg).log]
  exact (Op.ofExcept_error.mp h1).1

theorem Spares.getChunks {id : String} {e : StoreError} {w w' : World κ}
    (h : w.Spares .chunksGet) (he : getChunks id w = .error e w') : w.chunks.get id = .error e := by
  rcases bind_error he with hg | ⟨_, u, hg, h1⟩
  · exact absurd hg h.guardStore
  rw [bind_get] at h1
  rw [← ((guardStore_alike _ _).ok hg).chunks]
  exact (Op.ofExcept_error.mp h1).1

theorem Spares.logAppend {es : List LogEntry} {e : StoreError} {w w' : World κ}
    (h : w.Spares .logAppend) (he : logAppend es w = .error e w') : w.log.append es = .error e := by
  rcases bind_error he with hg | ⟨_, u, hg, h1⟩
  · exact absurd hg h.guardStore
  rcases bind_error h1 with hr | ⟨_, v, hr, h2⟩
  · cases hr
  have hw : Alike w v := ((guardStore_alike _ _).ok hg).trans ((record_alike _).ok hr)
  rw [bind_get] at h2
  rcases bind_error h2 with hl | ⟨log, _, _, h3⟩
  · rw [← hw.log]
    exact (Op.ofExcept_error.mp hl).1
  · cases h3

theorem Spares.storeChunks {cs : List Chunk} {e : StoreError} {w w' : World κ}
    (h : w.Spares .chunksStore) (he : storeChunks cs w = .error e w') :
    w.chunks.store cs = .error e := by
  rcases bind_error he with hg | ⟨_, u, hg, h1⟩
  · exact absurd hg h.guardStore
  rw [bind_get] at h1
  rcases bind_error h1 with hc | ⟨chunks, _, _, h2⟩
  · rw [← ((guardStore_alike _ _).ok hg).chunks]
    exact (Op.ofExcept_error.mp hc).1
  · cases h2

theorem Spares.cleanChunks {ids : List String} {e : StoreError} {w w' : World κ}
    (h : w.Spares .chunksCleanup) (he : cleanChunks ids w = .error e w') :
    w.chunks.cleanup ids = .error e := by
  rcases bind_error he with hg | ⟨_, u, hg, h1⟩
  · exact absurd hg h.guardStore
  rcases bind_error h1 with hr | ⟨_, v, hr, h2⟩
  · cases hr
  have hw : Alike w v := ((guardStore_alike _ _).ok hg).trans ((record_alike _).ok hr)
  rw [bind_get] at h2
  rcases bind_error h2 with hc | ⟨chunks, _, _, h3⟩
  · rw [← hw.chunks]
    exact (Op.ofExcept_error.mp hc).1
  · cases h3

end World

/-! ## Stores that answer -/

namespace Table

variable {α : Type} {name : String} {table : Option (Table α)} {ss : List String}

theorem find_ok_iff {t : Table α} :
    find name table ss = .ok t ↔ ss.all canHold = true ∧ table = some t := by
  unfold find
  constructor
  · intro h
    split at h
    · next hall =>
      cases table with
      | none => cases h
      | some u => cases h; exact ⟨hall, rfl⟩
    · cases h
  · rintro ⟨hall, rfl⟩
    rw [if_pos hall]

/-- Values whose texts the table can be asked about can be inserted. -/
theorem insertAll_ok {sameKey : α → α → Bool} {texts : α → List String} {vs : List α} {t : Table α}
    (h : ∀ v ∈ vs, (texts v).all canHold = true) :
    ∃ t', insertAll name sameKey texts (some t) vs = .ok t' := by
  unfold insertAll
  induction vs generalizing t with
  | nil => exact ⟨_, rfl⟩
  | cons v vs ih =>
    have hfind : find name (some t) (texts v) = .ok t :=
      find_ok_iff.mpr ⟨h v List.mem_cons_self, rfl⟩
    rw [List.foldlM_cons, hfind]
    exact ih fun v hv => h v (List.mem_cons_of_mem _ hv)

end Table

namespace InboundLog

/-- The log answers for the message on the endpoint. -/
def Answers (l : InboundLog) (id endpoint : String) : Prop := ∃ b, l.contains id endpoint = .ok b

theorem answers_table {t : Option (Table LogEntry)} {id endpoint : String} :
    (table t).Answers id endpoint ↔ [id, endpoint].all Table.canHold = true ∧ ∃ u, t = some u := by
  unfold Answers contains
  constructor
  · rintro ⟨b, hb⟩
    dsimp only at hb
    cases hf : Table.find tableName t [id, endpoint] with
    | error e => rw [hf] at hb; cases hb
    | ok u =>
      obtain ⟨hall, rfl⟩ := Table.find_ok_iff.mp hf
      exact ⟨hall, u, rfl⟩
  · rintro ⟨hall, u, rfl⟩
    have hf : Table.find tableName (some u) [id, endpoint] = .ok u :=
      Table.find_ok_iff.mpr ⟨hall, rfl⟩
    dsimp only
    rw [hf]
    exact ⟨_, rfl⟩

/-- A log that answers for the messages of all entries takes them. -/
theorem append_answered {l : InboundLog} {es : List LogEntry}
    (h : ∀ e ∈ es, l.Answers e.messageId e.endpoint) : ∃ l', l.append es = .ok l' := by
  cases l with
  | memory old => exact ⟨_, rfl⟩
  | table t =>
    have hinsert : ∃ t', Table.insertAll tableName (· == ·)
        (fun e : LogEntry => [e.messageId, e.endpoint]) t es = .ok t' := by
      cases es with
      | nil => exact ⟨_, rfl⟩
      | cons e es =>
        obtain ⟨-, u, rfl⟩ := answers_table.mp (h e List.mem_cons_self)
        exact Table.insertAll_ok fun e he => (answers_table.mp (h e he)).1
    obtain ⟨t', ht'⟩ := hinsert
    refine ⟨.table t', ?_⟩
    unfold append
    dsimp only
    rw [ht']
    rfl

end InboundLog

namespace ChunkStore

/-- The store answers for the message. -/
def Answers (c : ChunkStore) (id : String) : Prop := ∃ ds, c.get id = .ok ds

theorem answers_table {t : Option (Table ChunkRow)} {id : String} :
    (table t).Answers id ↔ Table.canHold id = true ∧ ∃ u, t = some u := by
  unfold Answers get
  constructor
  · rintro ⟨ds, hds⟩
    dsimp only at hds
    cases hf : Table.find tableName t [id] with
    | error e => rw [hf] at hds; cases hds
    | ok u =>
      obtain ⟨hall, rfl⟩ := Table.find_ok_iff.mp hf
      exact ⟨by simpa using hall, u, rfl⟩
  · rintro ⟨hid, u, rfl⟩
    have hf : Table.find tableName (some u) [id] = .ok u :=
      Table.find_ok_iff.mpr ⟨by simpa using hid, rfl⟩
    dsimp only
    rw [hf]
    exact ⟨_, rfl⟩

/-- A store that answers for every one of the ids can clean them up, and answers as before. -/
theorem cleanup_answered {c : ChunkStore} {ids : List String} (h : ∀ id ∈ ids, c.Answers id) :
    ∃ c', c.cleanup ids = .ok c' ∧ ∀ id, c.Answers id → c'.Answers id := by
  cases c with
  | memory cs => exact ⟨_, rfl, fun _ _ => ⟨_, rfl⟩⟩
  | table t =>
    cases ids with
    | nil => exact ⟨_, rfl, fun _ h => h⟩
    | cons id ids =>
      obtain ⟨-, u, rfl⟩ := answers_table.mp (h id List.mem_cons_self)
      have hf : Table.find tableName (some u) (id :: ids) = .ok u :=
        Table.find_ok_iff.mpr ⟨List.all_eq_true.mpr fun x hx => (answers_table.mp (h x hx)).1, rfl⟩
      refine ⟨.table (some (u.delete fun r => (id :: ids).contains r.messageId)), ?_, fun x hx => ?_⟩
      · unfold cleanup
        dsimp only
        rw [hf]
        rfl
      · exact answers_table.mpr ⟨(answers_table.mp hx).1, _, rfl⟩

/-- A store that answers for the messages of all chunks takes them. -/
theorem store_answered {c : ChunkStore} {new : List Chunk}
    (h : ∀ d ∈ new, c.Answers d.messageId) : ∃ c', c.store new = .ok c' := by
  cases c with
  | memory old => exact ⟨_, rfl⟩
  | table t =>
    have hinsert : ∃ t', Table.insertAll tableName ChunkRow.sameKey
        (fun r : ChunkRow => [r.messageId]) t (new.map ChunkRow.ofChunk) = .ok t' := by
      cases new with
      | nil => exact ⟨_, rfl⟩
      | cons d new =>
        obtain ⟨-, u, rfl⟩ := answers_table.mp (h d List.mem_cons_self)
        refine Table.insertAll_ok fun r hr => ?_
        obtain ⟨d', hd', rfl⟩ := List.mem_map.mp hr
        change [d'.messageId].all Table.canHold = true
        simpa using (answers_table.mp (h d' hd')).1
    obtain ⟨t', ht'⟩ := hinsert
    refine ⟨.table t', ?_⟩
    unfold store
    dsimp only
    rw [ht']
    rfl

end ChunkStore

/-! ## Sessions -/

theorem LogSession.contains_error {s : LogSession} {id endpoint : String} {e : StoreError}
    {w w' : World κ} (hs : w.Spares .logExists) (ha : w.log.Answers id endpoint) :
    s.contains id endpoint w ≠ .error e w' := by
  intro h
  unfold contains at h
  split at h
  · cases h
  · obtain ⟨b, hb⟩ := ha
    cases hb.symm.trans (hs.logContains h)

/-- Where appending is spared, a commit fails only with the log. -/
theorem LogSession.commit_refused {s : LogSession} {e : StoreError} {w w' : World κ}
    (hs : w.Spares .logAppend) (h : s.commit w = .error e w') : w.log.append s.pending = .error e := by
  unfold commit at h
  split at h
  · cases h
  · rcases bind_error h with hu | ⟨_, u, -, h1⟩
    · exact hs.logAppend hu
    · cases h1

namespace ChunkSession

variable {s : ChunkSession} {w w' : World κ}

theorem get_error {id : String} {e : StoreError} (hs : w.Spares .chunksGet)
    (ha : w.chunks.Answers id) : s.get id w ≠ .error e w' := by
  intro h
  rw [get_eq] at h
  rcases bind_error h with hc | ⟨_, u, -, h1⟩
  · split at hc
    · cases hc
    · obtain ⟨ds, hds⟩ := ha
      cases hds.symm.trans (hs.getChunks hc)
  · cases h1

theorem aggregate_error {id : String} {headers : Headers} {payload : Bytes}
    {position : ChunkHeaders} {e : ChunkError} (hs : w.Spares .chunksGet)
    (ha : w.chunks.Answers id) (hread : ChunkHeaders.read headers = .ok (some position)) :
    s.aggregate id headers payload w ≠ .error e w' := by
  intro h
  unfold aggregate at h
  rw [hread] at h
  rcases bind_error h with hr | ⟨p, u, hr, h1⟩
  · cases (Op.ofExcept_error.mp hr).1
  obtain ⟨hp, rfl⟩ := Op.ofExcept_ok.mp hr
  cases hp
  rcases bind_error h1 with hg | ⟨existing, v, -, h2⟩
  · obtain ⟨e', hg, -⟩ := Op.mapError_error.mp hg
    exact get_error hs ha hg
  · cases hc : arrive existing id position payload <;> rw [hc] at h2 <;> cases h2

theorem sees_answers {c : ChunkStore} {id : String} {cs : List Chunk}
    (h : s.sees c id = .ok cs) : id ∈ s.cleaned ∨ c.Answers id := by
  unfold sees at h
  split at h
  · next hc => exact Or.inl (List.contains_iff_mem.mp hc)
  · cases hg : c.get id with
    | error e => rw [hg] at h; cases h
    | ok ds => exact Or.inr ⟨ds, hg⟩

/-- Where cleaning up is spared and the store answers for the sets, a commit that fails has cleaned
up before. -/
theorem commit_cleaned {e : StoreError} (hs : w.Spares .chunksCleanup)
    (ha : ∀ id ∈ s.cleaned, w.chunks.Answers id) (h : s.commit w = .error e w') :
    ∃ chunks, w.chunks.cleanup s.cleaned = .ok chunks ∧ Alike { w with chunks } w' ∧
      (w.Spares .chunksStore → chunks.store s.stored = .error e) := by
  rw [commit_eq] at h
  rcases bind_error h with hu | ⟨_, u, hu, h1⟩
  · split at hu
    · cases hu
    · obtain ⟨chunks, hchunks, -⟩ := ChunkStore.cleanup_answered ha
      cases hchunks.symm.trans (hs.cleanChunks hu)
  rcases bind_error h1 with hv | ⟨_, v, -, h2⟩
  · obtain ⟨chunks, hc, hwu⟩ := clean_ok hu
    have hplan : u.plan = w.plan := by
      split at hu
      · cases hu; rfl
      · exact ((World.cleanChunks_stores _).ok hu).plan
    split at hv
    · cases hv
    · refine ⟨chunks, hc, hwu.trans (World.storeChunks_error hv), fun hstore => ?_⟩
      have hrefused := (hstore.of_plan hplan).storeChunks hv
      rwa [hwu.chunks] at hrefused
  · cases h2

end ChunkSession

/-! ## Settling -/

namespace World

/-- The stores answer for the message on the endpoint. -/
structure Answers (name : String) (w : World κ) (id : String) : Prop where
  log : w.log.Answers id name
  chunks : w.chunks.Answers id

/-- Calls to the stores and acknowledgements go through for the messages of a batch. -/
structure Obliging (endpoint : Endpoint) (ms : List RawMessage) (w : World κ) : Prop where
  spared : ∀ site, site ≠ .produce → site ≠ .subscribe → w.Spares site
  answers : ∀ m ∈ ms, ∀ id, m.headers.get? Headers.messageId = some id →
    w.Answers endpoint.name id
  topic : (w.transport.topic? endpoint.name).isSome

/-- The stores are the same, no rule was added, and no topic has gone. -/
structure Steadfast (w w' : World κ) : Prop where
  log : w'.log = w.log
  chunks : w'.chunks = w.chunks
  plan : w'.plan = w.plan
  topics : ∀ name, (w.transport.topic? name).isSome → (w'.transport.topic? name).isSome

theorem Sends.steadfast {w w' : World κ} (h : Sends w w') : Steadfast w w' :=
  ⟨h.log, h.chunks, h.plan, h.topics⟩

theorem Alike.steadfast {w w' : World κ} (h : Alike w w') (hs : Stores w w') : Steadfast w w' :=
  ⟨h.log, h.chunks, hs.plan, fun name ht => by rwa [h.transport]⟩

theorem Obliging.steadfast {endpoint : Endpoint} {ms : List RawMessage} {w w' : World κ}
    (h : w.Obliging endpoint ms) (hw : Steadfast w w') : w'.Obliging endpoint ms where
  spared site hp hs := (h.spared site hp hs).of_plan hw.plan
  answers m hm id hid := by
    obtain ⟨hl, hc⟩ := h.answers m hm id hid
    exact ⟨by rwa [hw.log], by rwa [hw.chunks]⟩
  topic := hw.topics _ h.topic

end World

open World (Steadfast Obliging)

namespace Settlement

variable {endpoint : Endpoint} {m : RawMessage} {ms : List RawMessage} {s t : Inbox κ}

/-- Settling a message fails only where a store refuses. -/
theorem one_obliging (h : s.world.Obliging endpoint ms) (hm : m ∈ ms) (e : InboundError) :
    one endpoint m s ≠ .error e t := by
  intro he
  unfold one at he
  cases hraw : RawEnvelope.ofMessage endpoint m with
  | error e' => rw [hraw] at he; cases he
  | ok raw =>
  rw [hraw] at he
  obtain ⟨id, hid, rfl⟩ := ofMessage_ok hraw
  rcases bind_error he with hb | ⟨b, u, hb, h1⟩
  · obtain ⟨e', hb, -⟩ := Inbound.onWorld_error.mp hb
    have hans := (h.answers m hm id hid).log
    exact LogSession.contains_error (h.spared _ (by decide) (by decide)) hans hb
  have hstores : Inbox.Along World.Stores s u :=
    (Inbox.Allows.of_stores fun _ _ h => h).contains id endpoint.name |>.ok hb
  have hu : Steadfast s.world u.world :=
    ((Inbound.logContains_untouched _ _).ok hb).2.steadfast hstores.world
  have h' := h.steadfast hu
  cases b with
  | true => cases h1
  | false =>
    rcases bind_error h1 with hj | ⟨joined, v, -, h2⟩
    · unfold joinedOf at hj
      split at hj
      · next hchunk =>
        obtain ⟨position, hread⟩ := isChunk_iff.mp hchunk
        rcases bind_error hj with hp | ⟨payload, x, -, h3⟩
        · rw [Inbound.aggregate_eq] at hp
          rcases bind_error hp with hr | ⟨r, x, -, h3⟩
          · obtain ⟨e', hr, -⟩ := Inbound.onWorld_error.mp hr
            have hans := (h'.answers m hm id hid).chunks
            exact ChunkSession.aggregate_error (h'.spared _ (by decide) (by decide)) hans hread hr
          · cases h3
        · cases payload <;> cases h3
      · cases hj
    · cases joined <;> cases h2

theorem one_steadfast (endpoint : Endpoint) (m : RawMessage) {r : Option RawMessage}
    (h : one endpoint m s = .ok r t) : Steadfast s.world t.world :=
  (one_ok h).1.steadfast ((one_within (.of_stores fun _ _ h => h) endpoint m).ok h).world

theorem many_obliging (h : s.world.Obliging endpoint ms) {ms' : List RawMessage}
    (hms : ∀ m ∈ ms', m ∈ ms) (e : InboundError) : many endpoint ms' s ≠ .error e t := by
  induction ms' generalizing s with
  | nil => intro he; cases he
  | cons m ms' ih =>
    intro he
    rcases bind_error he with hone | ⟨first, u, hone, h1⟩
    · exact one_obliging h (hms m List.mem_cons_self) e hone
    rcases bind_error h1 with hmany | ⟨rest, v, -, h2⟩
    · have hu := h.steadfast (one_steadfast endpoint m hone)
      exact ih hu (fun m hm => hms m (List.mem_cons_of_mem _ hm)) hmany
    · cases h2

end Settlement

/-- The transaction has nothing to send and nothing enlisted, and what it would write is about
messages that the stores answer for. -/
structure Transaction.Answered (l : InboundLog) (c : ChunkStore) (tx : Transaction κ) : Prop where
  outbox : tx.outbox = []
  resources : tx.resources = []
  pending : ∀ e ∈ tx.log.pending, l.Answers e.messageId e.endpoint
  stored : ∀ d ∈ tx.chunks.stored, c.Answers d.messageId
  cleaned : ∀ id ∈ tx.chunks.cleaned, c.Answers id

theorem Transaction.answered_empty (l : InboundLog) (c : ChunkStore) :
    ({} : Transaction κ).Answered l c :=
  ⟨rfl, rfl, by simp, by simp, by simp⟩

theorem Intake.answered {l : InboundLog} {c : ChunkStore} {raw : RawEnvelope}
    {tx tx' : Transaction κ} {o : Option (Bytes × Headers)} (h : Intake l c raw tx o tx')
    (hl : l.Answers raw.messageId raw.endpoint.name) (hc : c.Answers raw.messageId)
    (ht : tx.Answered l c) : tx'.Answered l c := by
  have hpending : ∀ e ∈ (tx.log.add ⟨raw.messageId, raw.endpoint.name⟩).pending,
      l.Answers e.messageId e.endpoint := by
    refine List.forall_mem_append.mpr ⟨ht.pending, List.forall_mem_singleton.mpr hl⟩
  have hchunks : ∀ existing position,
      (∀ d ∈ (tx.chunks.take existing raw.messageId position raw.payload).2.stored,
        c.Answers d.messageId) ∧
      ∀ id ∈ (tx.chunks.take existing raw.messageId position raw.payload).2.cleaned,
        c.Answers id := by
    intro existing position
    rcases tx.chunks.take_cases existing raw.messageId position raw.payload with
      ⟨-, he⟩ | ⟨count, he⟩ | ⟨joined, he⟩
    · rw [he]
      exact ⟨ht.stored, ht.cleaned⟩
    · rw [he]
      exact ⟨List.forall_mem_append.mpr ⟨ht.stored, List.forall_mem_singleton.mpr hc⟩, ht.cleaned⟩
    · rw [he]
      refine ⟨fun d hd => ht.stored d (List.mem_filter.mp hd).1, fun id hid => ?_⟩
      rcases ChunkSession.mem_insertId.mp hid with rfl | hid
      · exact hc
      · exact ht.cleaned id hid
  cases h with
  | known => exact ht
  | held => exact ⟨ht.outbox, ht.resources, ht.pending, (hchunks _ _).1, (hchunks _ _).2⟩
  | joined => exact ⟨ht.outbox, ht.resources, hpending, (hchunks _ _).1, (hchunks _ _).2⟩
  | plain => exact ⟨ht.outbox, ht.resources, hpending, ht.stored, ht.cleaned⟩

theorem TakenIn.answered {w : World κ} {endpoint : Endpoint} {tx tx' : Transaction κ}
    {ms all : List RawMessage} (h : TakenIn w.log w.chunks endpoint tx ms tx')
    (hw : w.Obliging endpoint all) (hms : ∀ m ∈ ms, m ∈ all) (ht : tx.Answered w.log w.chunks) :
    tx'.Answered w.log w.chunks := by
  induction h with
  | nil => exact ht
  | unnamed _ _ ih => exact ih (fun m hm => hms m (List.mem_cons_of_mem _ hm)) ht
  | named hraw h _ ih =>
    obtain ⟨id, hid, rfl⟩ := Settlement.ofMessage_ok hraw
    obtain ⟨hl, hc⟩ := hw.answers _ (hms _ List.mem_cons_self) id hid
    exact ih (fun m hm => hms m (List.mem_cons_of_mem _ hm)) (h.answered hl hc ht)

/-- **A batch is settled** where the stores oblige. -/
theorem Settlement.batch_obliging {w : World κ} {endpoint : Endpoint} {ms : List RawMessage}
    (h : w.Obliging endpoint ms) (wire : Wire) :
    ∃ settled tx u, batch wire endpoint ms w = .ok (settled, tx) u ∧ Steadfast w u ∧
      Stores w u ∧ tx.Answered u.log u.chunks := by
  cases hm : many endpoint ms ⟨{}, w⟩ with
  | error e t => exact absurd hm (many_obliging h (fun _ hm => hm) e)
  | ok settled t =>
    obtain ⟨htaken, ha⟩ := many_ok hm
    have hb : batch wire endpoint ms w = .ok (settled, t.transaction) t.world := batch_ok.mpr hm
    have hs : Stores w t.world := (batch_stores wire endpoint ms).ok hb
    refine ⟨settled, t.transaction, t.world, hb, ha.steadfast hs, hs, ?_⟩
    rw [ha.log, ha.chunks]
    exact htaken.answered h (fun _ hm => hm) (Transaction.answered_empty _ _)

/-! ## Commits and acknowledgements -/

/-- **A transaction is committed** where the stores oblige. -/
theorem Transaction.commit_obliging {w : World κ} {endpoint : Endpoint} {ms : List RawMessage}
    (h : w.Obliging endpoint ms) {tx : Transaction κ} (ht : tx.Answered w.log w.chunks)
    (wire : Wire) : ∃ u, tx.commit wire w = .ok () u ∧ Stores w u := by
  have hspared : ∀ site, site ≠ .produce → site ≠ .subscribe → w.Spares site := h.spared
  have halong : tx.Along Stores := fun r hr => by rw [ht.resources] at hr; cases hr
  have hflush : Within Stores (flush wire tx.outbox : Op κ StoreError Unit) := by
    rw [ht.outbox]
    exact within_pure ()
  have hcommit : Within Stores (tx.commit wire) := commit_along (fun _ _ h => h) hflush halong
  cases hc : tx.commit wire w with
  | ok _ u => exact ⟨u, rfl, hcommit.ok hc⟩
  | error e u =>
    exfalso
    rcases commit_stops "" ht.resources hc with
      ⟨v, hv, -⟩ | ⟨v, hv, ⟨x, hx, -⟩ | ⟨s, x, hx, y, hy, -⟩⟩
    · rw [ht.outbox] at hv
      cases hv
    · rw [ht.outbox] at hv
      cases hv
      obtain ⟨l', hl⟩ := InboundLog.append_answered ht.pending
      cases hl.symm.trans (LogSession.commit_refused (hspared _ (by decide) (by decide)) hx)
    · rw [ht.outbox] at hv
      cases hv
      have hwx : x.plan = w.plan := ((LogSession.commit_stores _).ok hx).plan
      have hchunks : x.chunks = w.chunks := by
        obtain ⟨log, -, ha⟩ := LogSession.commit_ok hx
        exact ha.chunks
      have hclean : ∀ id ∈ tx.chunks.cleaned, x.chunks.Answers id := by
        rw [hchunks]
        exact ht.cleaned
      obtain ⟨chunks, hcleaned, -, hstore⟩ := ChunkSession.commit_cleaned
        ((hspared _ (by decide) (by decide)).of_plan hwx) hclean hy
      obtain ⟨chunks', hcleaned', hkeeps⟩ := ChunkStore.cleanup_answered hclean
      cases hcleaned.symm.trans hcleaned'
      rw [hchunks] at hkeeps
      obtain ⟨c', hc'⟩ := ChunkStore.store_answered fun d hd => hkeeps _ (ht.stored d hd)
      cases hc'.symm.trans (hstore ((hspared _ (by decide) (by decide)).of_plan hwx))

namespace World

variable {name : String}

/-- The offsets were acknowledged on the topic by one call, in order; none take no call. -/
structure Acked (name : String) (offsets : List String) (w w' : World κ) : Prop where
  calls : w'.calls name = if offsets.isEmpty then w.calls name else offsets :: w.calls name
  acknowledged : ∀ o, o ∈ (w'.transport.topic name).acknowledged ↔
    o ∈ (w.transport.topic name).acknowledged ∨ o ∈ offsets

theorem acknowledge_calls {endpoint : Endpoint} {offsets : List String} {w w' : World κ}
    (h : acknowledge endpoint offsets w = .ok () w') :
    w'.calls endpoint.name = offsets :: w.calls endpoint.name := by
  obtain ⟨_, u, hg, h1⟩ := bind_ok h
  obtain ⟨_, v, hr, h2⟩ := bind_ok h1
  cases hr
  rw [bind_get] at h2
  obtain ⟨t, _, ht, h3⟩ := bind_ok h2
  obtain ⟨-, rfl⟩ := Op.ofExcept_ok.mp ht
  cases h3
  rw [← ((guardTransport_sends _ _).ok hg).calls endpoint.name]
  unfold calls
  rw [List.filterMap_cons]
  simp

/-- **Messages of a topic are acknowledged** where the call is spared. -/
theorem acknowledge_spared {endpoint : Endpoint} {w : World κ} (hs : w.Spares .acknowledge)
    (ht : (w.transport.topic? endpoint.name).isSome) (offsets : List String) :
    ∃ u, acknowledge endpoint offsets w = .ok () u := by
  cases ha : acknowledge endpoint offsets w with
  | ok _ u => exact ⟨u, rfl⟩
  | error e u =>
    exfalso
    rcases bind_error ha with hg | ⟨_, u, hg, h1⟩
    · exact hs.guardTransport hg
    rcases bind_error h1 with hr | ⟨_, v, hr, h2⟩
    · cases hr
    have hv : v.transport = w.transport :=
      (((guardTransport_alike _ _).ok hg).trans ((record_alike _).ok hr)).transport
    rw [bind_get] at h2
    rcases bind_error h2 with hx | ⟨t, _, _, h3⟩
    · have hx := (Op.ofExcept_error.mp hx).1
      rw [hv] at hx
      unfold Transport.acknowledge at hx
      split at hx
      · next hnone => rw [hnone] at ht; cases ht
      · cases hx
    · cases h3

end World

theorem Attempt.acknowledge_obliging {endpoint : Endpoint} {w : World κ}
    (hs : w.Spares .acknowledge) (ht : (w.transport.topic? endpoint.name).isSome)
    (ms : List RawMessage) :
    ∃ u, acknowledge endpoint ms w = .ok () u ∧
      World.Acked endpoint.name (offsets ms) w u := by
  unfold acknowledge
  split
  · next he =>
    refine ⟨w, rfl, by rw [if_pos he], fun o => ?_⟩
    rw [List.isEmpty_iff.mp he]
    simp
  · next he =>
    obtain ⟨u, hu⟩ := World.acknowledge_spared hs ht (offsets ms)
    refine ⟨u, hu, ?_, (World.acknowledge_ok hu).2.2⟩
    rw [if_neg he]
    exact World.acknowledge_calls hu

end Relay
