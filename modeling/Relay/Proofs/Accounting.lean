import Relay.Proofs.Headers
import Relay.Proofs.Intake
import Relay.Proofs.Stores
import Relay.Proofs.Transaction
/-!
# Accounting for messages

A message with a message id is accounted for if the log has its id or the chunk store has its
chunk. Whatever a transaction does to the stores, in its buffers or for good, is along `Covers`:
the log grows, and a chunk leaves the store only when its id is logged. So what is accounted for
stays accounted for (`Accounted.mono`).

Results:
- `Intake.covers`, `Intake.accounts`: taking in a message accounts for it and drops nothing.
- `commit_ok_covers`, `commit_kept`: a commit that succeeds makes what the transaction sees the
  content of the stores; one that fails half-way still drops nothing.
- `Intake.ignored`: a message that is accounted for is taken in without any effect.
-/
namespace Relay

open World (Alike Aside)

variable {κ : Type}

/-! ## Accounts -/

/-- The log has the id of the message, or its chunk waits among the chunks. -/
def Accounted (endpoint : String) (log : List LogEntry) (chunks : List Chunk) (m : RawMessage) :
    Prop :=
  ∀ id, m.headers.get? Headers.messageId = some id →
    ⟨id, endpoint⟩ ∈ log ∨ ∃ position, ChunkHeaders.read m.headers = .ok (some position) ∧
      ∃ c ∈ chunks, c.messageId = id ∧ c.index = position.index

/-- The log has grown, and of the chunks none is gone but those whose message is in the log. -/
structure Covers (endpoint : String) (log : List LogEntry) (chunks : List Chunk)
    (log' : List LogEntry) (chunks' : List Chunk) : Prop where
  log : ∀ e ∈ log, e ∈ log'
  chunks : ∀ c ∈ chunks, ⟨c.messageId, endpoint⟩ ∈ log' ∨
    ∃ d ∈ chunks', d.messageId = c.messageId ∧ d.index = c.index

namespace Covers

variable {endpoint : String} {l l' l'' : List LogEntry} {c c' c'' : List Chunk}

theorem refl (l : List LogEntry) (c : List Chunk) : Covers endpoint l c l c :=
  ⟨fun _ h => h, fun d hd => Or.inr ⟨d, hd, rfl, rfl⟩⟩

theorem trans (h : Covers endpoint l c l' c') (h' : Covers endpoint l' c' l'' c'') :
    Covers endpoint l c l'' c'' := by
  refine ⟨fun e he => h'.log e (h.log e he), ?_⟩
  intro d hd
  rcases h.chunks d hd with hlog | ⟨e, he, hid, hindex⟩
  · exact Or.inl (h'.log _ hlog)
  rcases h'.chunks e he with hlog | ⟨f, hf, hid', hindex'⟩
  · exact Or.inl (hid ▸ hlog)
  · exact Or.inr ⟨f, hf, hid'.trans hid, hindex'.trans hindex⟩

end Covers

theorem Accounted.mono {endpoint : String} {l l' : List LogEntry} {c c' : List Chunk}
    {m : RawMessage} (h : Accounted endpoint l c m) (hc : Covers endpoint l c l' c') :
    Accounted endpoint l' c' m := by
  intro id hid
  rcases h id hid with hlog | ⟨position, hread, d, hd, hmid, hindex⟩
  · exact Or.inl (hc.log _ hlog)
  rcases hc.chunks d hd with hlog | ⟨e, he, hmid', hindex'⟩
  · exact Or.inl (hmid ▸ hlog)
  · exact Or.inr ⟨position, hread, e, he, hmid'.trans hmid, hindex'.trans hindex⟩

/-- Marking a message with its failures changes nothing about its account. -/
theorem Accounted.marked {endpoint : String} {l : List LogEntry} {c : List Chunk} {m : RawMessage}
    {value : String} :
    Accounted endpoint l c { m with headers := m.headers.insert Headers.failedAttempts value } ↔
      Accounted endpoint l c m := by
  unfold Accounted
  simp only [ChunkHeaders.read_insert _ ChunkHeaders.foreign_failedAttempts,
    Headers.get?_insert_of_ne _ _ (by decide :
      sameName Headers.failedAttempts Headers.messageId = false)]

/-! ## What sessions show -/

namespace LogSession

/-- The entries a session shows over a log. -/
def view (s : LogSession) (l : InboundLog) : List LogEntry := l.items ++ s.pending

theorem view_empty (l : InboundLog) : ({} : LogSession).view l = l.items := List.append_nil _

theorem view_add (s : LogSession) (e : LogEntry) (l : InboundLog) :
    (s.add e).view l = s.view l ++ [e] := by
  unfold view add
  rw [List.append_assoc]

theorem sees_iff {s : LogSession} {l : InboundLog} {id endpoint : String} {b : Bool}
    (h : s.sees l id endpoint = .ok b) : b = true ↔ ⟨id, endpoint⟩ ∈ s.view l := by
  unfold sees at h
  unfold view
  rw [List.mem_append]
  split at h
  · next hp =>
    cases h
    rw [List.contains_iff_mem] at hp
    simp [hp]
  · next hp =>
    rw [List.contains_iff_mem] at hp
    rw [InboundLog.contains_iff h]
    simp [hp]

end LogSession

namespace ChunkSession

/-- The chunks a session shows over a store. -/
def view (s : ChunkSession) (c : ChunkStore) : List Chunk :=
  Chunks.cleanup c.items s.cleaned ++ s.stored

theorem view_empty (c : ChunkStore) : ({} : ChunkSession).view c = c.items := by
  unfold view Chunks.cleanup
  rw [List.append_nil, List.filter_eq_self.mpr (by simp)]

/-- Of a message it shows what is stored, unless that was cleaned up, and then what it buffers. -/
theorem ofMessage_view (s : ChunkSession) (c : ChunkStore) (id : String) :
    Chunks.ofMessage (s.view c) id =
      (if s.cleaned.contains id then [] else Chunks.ofMessage c.items id) ++ s.pendingFor id := by
  unfold view Chunks.ofMessage Chunks.cleanup
  rw [List.filter_append, List.filter_filter]
  congr 1
  split
  · next hc =>
    rw [List.filter_eq_nil_iff]
    intro d _ hd
    rw [Bool.and_eq_true, beq_iff_eq] at hd
    rw [hd.1, hc] at hd
    exact absurd hd.2 (by simp)
  · next hc =>
    refine List.filter_congr fun d _ => ?_
    by_cases hd : d.messageId = id
    · simp only [hd, beq_self_eq_true, Bool.true_and]
      simpa using hc
    · simp [hd]

theorem sees_eq {s : ChunkSession} {c : ChunkStore} {id : String} {cs : List Chunk}
    (h : s.sees c id = .ok cs) : cs = Chunks.ofMessage (s.view c) id := by
  rw [ofMessage_view]
  unfold sees at h
  split at h
  · next hc =>
    cases h
    rw [if_pos hc, List.nil_append]
  · next hc =>
    rw [if_neg hc]
    cases hg : c.get id with
    | error e => rw [hg] at h; cases h
    | ok committed =>
      rw [hg] at h
      cases h
      rw [ChunkStore.get_items hg]

theorem mem_insertId {id x : String} {ids : List String} :
    x ∈ insertId id ids ↔ x = id ∨ x ∈ ids := by
  induction ids with
  | nil => simp [insertId]
  | cons y ys ih =>
    unfold insertId
    cases hc : compare id y with
    | lt => simp
    | eq =>
      have : id = y := Std.LawfulEqOrd.eq_of_compare hc
      simp [this]
    | gt => simp only [List.mem_cons, ih]; tauto

theorem view_store (s : ChunkSession) (d : Chunk) (c : ChunkStore) :
    (s.store d).view c = s.view c ++ [d] := by
  unfold view store
  rw [List.append_assoc]

theorem cleanup_insertId (cs : List Chunk) (id : String) (ids : List String) :
    Chunks.cleanup cs (insertId id ids) =
      (Chunks.cleanup cs ids).filter fun d => d.messageId != id := by
  unfold Chunks.cleanup
  rw [List.filter_filter]
  refine List.filter_congr fun d _ => ?_
  rw [Bool.eq_iff_iff]
  simp [mem_insertId]

theorem view_cleanup (s : ChunkSession) (id : String) (c : ChunkStore) :
    (s.cleanup id).view c = (s.view c).filter fun d => d.messageId != id := by
  unfold view cleanup
  rw [List.filter_append, cleanup_insertId]

theorem take_duplicate (s : ChunkSession) {existing : List Chunk} (id : String) {h : ChunkHeaders}
    (payload : Bytes) {d : Chunk} (hd : d ∈ existing) (hindex : d.index = h.index) :
    s.take existing id h payload = (none, s) := by
  have hany : existing.any (fun c => c.index == h.index) = true :=
    List.any_eq_true.mpr ⟨d, hd, beq_iff_eq.mpr hindex⟩
  unfold take
  rw [arrive_eq, if_pos hany]

/-- A chunk is dropped beside one with its index, and else parked or joined with the others. -/
theorem take_cases (s : ChunkSession) (existing : List Chunk) (id : String) (h : ChunkHeaders)
    (payload : Bytes) :
    ((∃ d ∈ existing, d.index = h.index) ∧ s.take existing id h payload = (none, s)) ∨
      (∃ count, s.take existing id h payload = (none, s.store ⟨id, h.index, count, payload⟩)) ∨
      ∃ joined, s.take existing id h payload = (some joined, s.cleanup id) := by
  by_cases hd : existing.any (fun c => c.index == h.index) = true
  · obtain ⟨d, hm, he⟩ := List.any_eq_true.mp hd
    have hindex := beq_iff_eq.mp he
    exact Or.inl ⟨⟨d, hm, hindex⟩, s.take_duplicate id payload hm hindex⟩
  · unfold take
    rw [arrive_eq, if_neg hd]
    right
    by_cases hl : existing.length + 1 < (expected existing h).toNat
    · exact Or.inl ⟨_, by rw [if_pos hl]⟩
    · exact Or.inr ⟨_, by rw [if_neg hl]⟩

end ChunkSession

/-! ## Taking in a message -/

namespace Transaction

/-- Nothing is enlisted, and a set is cleaned up only with its message logged. -/
structure Sound (endpoint : String) (tx : Transaction κ) : Prop where
  resources : tx.resources = []
  cleaned : ∀ id ∈ tx.chunks.cleaned, ⟨id, endpoint⟩ ∈ tx.log.pending

theorem sound_empty (endpoint : String) : Sound endpoint ({} : Transaction κ) :=
  ⟨rfl, fun _ h => by cases h⟩

/-- The message is accounted for by what the transaction shows. -/
def Accounts (tx : Transaction κ) (endpoint : String) (l : InboundLog) (c : ChunkStore)
    (m : RawMessage) : Prop :=
  Accounted endpoint (tx.log.view l) (tx.chunks.view c) m

end Transaction

namespace Intake

variable {l : InboundLog} {c : ChunkStore} {raw : RawEnvelope} {tx tx' : Transaction κ}
  {o : Option (Bytes × Headers)}

theorem covers (h : Intake l c raw tx o tx') :
    Covers raw.endpoint.name (tx.log.view l) (tx.chunks.view c)
      (tx'.log.view l) (tx'.chunks.view c) := by
  have hadd : ∀ e ∈ tx.log.view l,
      e ∈ (tx.log.add ⟨raw.messageId, raw.endpoint.name⟩).view l := by
    intro e he
    rw [LogSession.view_add]
    exact List.mem_append_left _ he
  cases h with
  | known => exact .refl _ _
  | plain => exact ⟨hadd, fun d hd => Or.inr ⟨d, hd, rfl, rfl⟩⟩
  | @held position existing _ _ _ htake =>
    rcases tx.chunks.take_cases existing raw.messageId position raw.payload with
      ⟨-, ht⟩ | ⟨count, ht⟩ | ⟨joined, ht⟩
    · rw [ht]
      exact .refl _ _
    · rw [ht]
      refine ⟨fun _ he => he, fun d hd => Or.inr ⟨d, ?_, rfl, rfl⟩⟩
      rw [ChunkSession.view_store]
      exact List.mem_append_left _ hd
    · rw [ht] at htake
      cases htake
  | @joined position existing payload _ _ _ htake =>
    rcases tx.chunks.take_cases existing raw.messageId position raw.payload with
      ⟨-, ht⟩ | ⟨count, ht⟩ | ⟨joined, ht⟩
    · rw [ht] at htake
      cases htake
    · rw [ht] at htake
      cases htake
    · rw [ht]
      refine ⟨hadd, fun d hd => ?_⟩
      by_cases hid : d.messageId = raw.messageId
      · left
        change _ ∈ LogSession.view (tx.log.add _) l
        unfold LogSession.view LogSession.add
        simp [hid]
      · right
        refine ⟨d, ?_, rfl, rfl⟩
        change d ∈ (tx.chunks.cleanup raw.messageId).view c
        rw [ChunkSession.view_cleanup]
        exact List.mem_filter.mpr ⟨hd, by simpa using hid⟩

theorem sound (h : Intake l c raw tx o tx') (hs : tx.Sound raw.endpoint.name) :
    tx'.Sound raw.endpoint.name := by
  have hadd : ∀ id, ⟨id, raw.endpoint.name⟩ ∈ tx.log.pending →
      ⟨id, raw.endpoint.name⟩ ∈ (tx.log.add ⟨raw.messageId, raw.endpoint.name⟩).pending :=
    fun id hid => List.mem_append_left _ hid
  cases h with
  | known => exact hs
  | plain => exact ⟨hs.resources, fun id hid => hadd id (hs.cleaned id hid)⟩
  | @held position existing _ _ _ htake =>
    refine ⟨hs.resources, ?_⟩
    rcases tx.chunks.take_cases existing raw.messageId position raw.payload with
      ⟨-, ht⟩ | ⟨count, ht⟩ | ⟨joined, ht⟩
    · rw [ht]
      exact hs.cleaned
    · rw [ht]
      exact hs.cleaned
    · rw [ht] at htake
      cases htake
  | @joined position existing payload _ _ _ htake =>
    refine ⟨hs.resources, ?_⟩
    rcases tx.chunks.take_cases existing raw.messageId position raw.payload with
      ⟨-, ht⟩ | ⟨count, ht⟩ | ⟨joined, ht⟩
    · rw [ht] at htake
      cases htake
    · rw [ht] at htake
      cases htake
    · rw [ht]
      intro id hid
      rcases ChunkSession.mem_insertId.mp hid with rfl | hid
      · exact List.mem_append_right _ List.mem_cons_self
      · exact hadd id (hs.cleaned id hid)

theorem resources (h : Intake l c raw tx o tx') : tx'.resources = tx.resources := by
  cases h <;> rfl

theorem outbox (h : Intake l c raw tx o tx') : tx'.outbox = tx.outbox := by
  cases h <;> rfl

/-- A message that was taken in is accounted for. -/
theorem accounts {endpoint : Endpoint} {m : RawMessage} (h : Intake l c raw tx o tx')
    (hraw : RawEnvelope.ofMessage endpoint m = .ok raw) : tx'.Accounts endpoint.name l c m := by
  obtain ⟨id, hid, rfl⟩ := Settlement.ofMessage_ok hraw
  intro id' hid'
  rw [hid] at hid'
  cases hid'
  cases h with
  | known hlog => exact Or.inl ((LogSession.sees_iff hlog).mp rfl)
  | plain => exact Or.inl (by simp [Transaction.logged, LogSession.view, LogSession.add])
  | joined => exact Or.inl (by simp [Transaction.logged, LogSession.view, LogSession.add])
  | @held position existing _ hread hsees htake =>
    refine Or.inr ⟨position, hread, ?_⟩
    rcases tx.chunks.take_cases existing id position m.payload with
      ⟨⟨d, hd, hindex⟩, ht⟩ | ⟨count, ht⟩ | ⟨joined, ht⟩
    · rw [ht]
      obtain ⟨hv, hmid⟩ := List.mem_filter.mp (ChunkSession.sees_eq hsees ▸ hd)
      exact ⟨d, hv, beq_iff_eq.mp hmid, hindex⟩
    · rw [ht, ChunkSession.view_store]
      exact ⟨_, List.mem_append_right _ List.mem_cons_self, rfl, rfl⟩
    · rw [ht] at htake
      cases htake

/-- A message that is accounted for is taken in without any effect. -/
theorem ignored {endpoint : Endpoint} {m : RawMessage} (h : Intake l c raw tx o tx')
    (hraw : RawEnvelope.ofMessage endpoint m = .ok raw) (ha : tx.Accounts endpoint.name l c m) :
    o = none ∧ tx' = tx := by
  obtain ⟨id, hid, rfl⟩ := Settlement.ofMessage_ok hraw
  have hnew : tx.log.sees l id endpoint.name = .ok false →
      ∃ position, ChunkHeaders.read m.headers = .ok (some position) ∧
        ∃ d ∈ tx.chunks.view c, d.messageId = id ∧ d.index = position.index := by
    intro hlog
    rcases ha id hid with hin | hchunk
    · rw [← LogSession.sees_iff hlog] at hin
      cases hin
    · exact hchunk
  -- a parked chunk makes every further one of its index a duplicate
  have hdup : ∀ {position : ChunkHeaders} {existing : List Chunk},
      tx.log.sees l id endpoint.name = .ok false →
      ChunkHeaders.read m.headers = .ok (some position) →
      tx.chunks.sees c id = .ok existing →
      tx.chunks.take existing id position m.payload = (none, tx.chunks) := by
    intro position existing hlog hread hsees
    obtain ⟨position', hread', d, hd, hmid, hindex⟩ := hnew hlog
    rw [hread] at hread'
    cases hread'
    have hm : d ∈ existing := by
      rw [ChunkSession.sees_eq hsees]
      exact List.mem_filter.mpr ⟨hd, beq_iff_eq.mpr hmid⟩
    exact tx.chunks.take_duplicate id m.payload hm hindex
  cases h with
  | known => exact ⟨rfl, rfl⟩
  | plain hlog hread =>
    obtain ⟨position, hread', -⟩ := hnew hlog
    rw [Settlement.isChunk_iff.mpr ⟨position, hread'⟩] at hread
    cases hread
  | held hlog hread hsees htake =>
    refine ⟨rfl, ?_⟩
    dsimp only at *
    rw [hdup hlog hread hsees]
  | joined hlog hread hsees htake =>
    dsimp only at *
    rw [hdup hlog hread hsees] at htake
    cases htake

end Intake

/-- A readable message that is accounted for fails to be taken in only where a store refuses a
look-up. -/
theorem Pipeline.process_refused {wire : Wire} {endpoint : Endpoint} {m : RawMessage}
    {raw : RawEnvelope} {position : Option ChunkHeaders} {e : InboundError} {s t : Inbox κ}
    (hraw : RawEnvelope.ofMessage endpoint m = .ok raw)
    (hread : ChunkHeaders.read m.headers = .ok position)
    (ha : s.transaction.Accounts endpoint.name s.world.log s.world.chunks m)
    (h : (create wire []).process raw s = .error e t) : e.Refused := by
  have hread' : ChunkHeaders.read raw.headers = .ok position := by
    obtain ⟨id, -, rfl⟩ := Settlement.ofMessage_ok hraw
    exact hread
  rcases process_failed hread' h with hrefused | ⟨payload, headers, hin, -⟩
  · exact hrefused
  · -- what is accounted for does not go on
    cases (hin.ignored hraw ha).1

/-! ## Commits -/

namespace World

/-- The stores have changed along `Covers`, and no message of the topic was acknowledged. -/
structure Kept (name : String) (w w' : World κ) : Prop where
  grown : w.log.Grown w'.log
  covers : Covers name w.log.items w.chunks.items w'.log.items w'.chunks.items
  acknowledged : (w'.transport.topic name).acknowledged = (w.transport.topic name).acknowledged

variable {name : String}

instance : Std.Refl (Kept (κ := κ) name) := ⟨fun _ => ⟨.refl _, .refl _ _, rfl⟩⟩

instance : IsTrans (World κ) (Kept name) :=
  ⟨fun _ _ _ h h' => ⟨h.grown.trans h'.grown, h.covers.trans h'.covers,
    h'.acknowledged.trans h.acknowledged⟩⟩

theorem Aside.kept {w w' : World κ} (h : Aside name w w') : Kept name w w' :=
  ⟨by rw [h.log]; exact .refl _, by rw [h.log, h.chunks]; exact .refl _ _, h.acknowledged⟩

end World

open World (Kept)

theorem ChunkSession.applied_items {s : ChunkSession} {c c' : ChunkStore}
    (h : s.applied c = .ok c') : c'.items = Chunks.store (Chunks.cleanup c.items s.cleaned) s.stored := by
  unfold applied at h
  cases hc : c.cleanup s.cleaned with
  | error e => rw [hc] at h; cases h
  | ok d =>
    rw [hc] at h
    change d.store s.stored = .ok c' at h
    rw [ChunkStore.store_items h, ChunkStore.cleanup_items hc]

namespace Transaction

variable {wire : Wire} {tx : Transaction κ} {w w' : World κ} {name : String}

/-- A chunk that cleaning up drops has its message logged. -/
theorem Sound.cleanup_covers (hs : tx.Sound name) (cs : List Chunk) {d : Chunk} (hd : d ∈ cs) :
    ⟨d.messageId, name⟩ ∈ tx.log.pending ∨ d ∈ Chunks.cleanup cs tx.chunks.cleaned := by
  by_cases hc : d.messageId ∈ tx.chunks.cleaned
  · exact Or.inl (hs.cleaned _ hc)
  · exact Or.inr (List.mem_filter.mpr ⟨hd, by simpa using hc⟩)

/-- What a transaction shows covers what is committed. -/
theorem Sound.view_covers (hs : tx.Sound name) (l : InboundLog) (c : ChunkStore) :
    Covers name l.items c.items (tx.log.view l) (tx.chunks.view c) := by
  refine ⟨fun _ he => List.mem_append_left _ he, fun d hd => ?_⟩
  rcases hs.cleanup_covers c.items hd with hlog | hd
  · exact Or.inl (List.mem_append_right _ hlog)
  · exact Or.inr ⟨d, List.mem_append_left _ hd, rfl, rfl⟩

/-- A commit that succeeds covers what the transaction shows. -/
theorem commit_ok_covers (hs : tx.Sound name) (h : tx.commit wire w = .ok () w') :
    w.log.Grown w'.log ∧
      Covers name (tx.log.view w.log) (tx.chunks.view w.chunks) w'.log.items w'.chunks.items ∧
      (w'.transport.topic name).acknowledged = (w.transport.topic name).acknowledged := by
  obtain ⟨log, chunks, hlog, hchunks, hw⟩ := commit_ok name hs.resources h
  refine ⟨by rw [hw.log]; exact .append hlog, ?_, hw.acknowledged⟩
  rw [hw.log, hw.chunks]
  change Covers name _ _ log.items chunks.items
  rw [InboundLog.append_items hlog, ChunkSession.applied_items hchunks]
  refine ⟨fun e he => LogEntries.mem_append.mpr (List.mem_append.mp he), fun d hd => Or.inr ?_⟩
  rcases List.mem_append.mp hd with hd | hd
  · exact ⟨d, Chunks.subset_store hd, rfl, rfl⟩
  · exact Chunks.exists_store hd

theorem Halfway.grown {log : InboundLog} {chunks : ChunkStore} (h : tx.Halfway w log chunks) :
    w.log.Grown log := by
  cases h with
  | nothing => exact .refl _
  | logged hlog => exact .append hlog
  | cleaned hlog => exact .append hlog

theorem Halfway.covers (hs : tx.Sound name) {log : InboundLog} {chunks : ChunkStore}
    (h : tx.Halfway w log chunks) : Covers name w.log.items w.chunks.items log.items chunks.items := by
  have hgrows : ∀ {log : InboundLog}, w.log.append tx.log.pending = .ok log →
      ∀ e, e ∈ w.log.items ∨ e ∈ tx.log.pending → e ∈ log.items := by
    intro log hlog e he
    rw [InboundLog.append_items hlog]
    exact LogEntries.mem_append.mpr he
  cases h with
  | nothing => exact .refl _ _
  | logged hlog =>
    exact ⟨fun e he => hgrows hlog e (Or.inl he), fun d hd => Or.inr ⟨d, hd, rfl, rfl⟩⟩
  | cleaned hlog hchunks =>
    refine ⟨fun e he => hgrows hlog e (Or.inl he), fun d hd => ?_⟩
    rw [ChunkStore.cleanup_items hchunks]
    rcases hs.cleanup_covers _ hd with hp | hd
    · exact Or.inl (hgrows hlog _ (Or.inr hp))
    · exact Or.inr ⟨d, hd, rfl, rfl⟩

/-- **Commits drop nothing.** Whether or how far it succeeds, a commit loses no account. -/
theorem commit_kept (hs : tx.Sound name) : Within (Kept name) (tx.commit wire) := by
  refine within_intro ?_ ?_
  · intro _ w w' h
    obtain ⟨hg, hc, ha⟩ := commit_ok_covers hs h
    exact ⟨hg, (hs.view_covers w.log w.chunks).trans hc, ha⟩
  · intro e w w' h
    obtain ⟨log, chunks, hhalf, hw⟩ := commit_error hs.resources h
    refine ⟨by rw [hw.log]; exact hhalf.grown, ?_, hw.acknowledged⟩
    rw [hw.log, hw.chunks]
    exact hhalf.covers hs

end Transaction

/-! ## Batches -/

/-- What taking in the messages of a batch, one after the other, makes of a transaction. Messages
without a message id are passed over. -/
inductive TakenIn (l : InboundLog) (c : ChunkStore) (endpoint : Endpoint) :
    Transaction κ → List RawMessage → Transaction κ → Prop
  | nil (tx : Transaction κ) : TakenIn l c endpoint tx [] tx
  | unnamed {tx tx' : Transaction κ} {m : RawMessage} {ms : List RawMessage} {e : EnvelopeError}
    (hraw : RawEnvelope.ofMessage endpoint m = .error e) (rest : TakenIn l c endpoint tx ms tx') :
    TakenIn l c endpoint tx (m :: ms) tx'
  | named {tx tx₁ tx' : Transaction κ} {m : RawMessage} {ms : List RawMessage} {raw : RawEnvelope}
    {o : Option (Bytes × Headers)} (hraw : RawEnvelope.ofMessage endpoint m = .ok raw)
    (h : Intake l c raw tx o tx₁) (rest : TakenIn l c endpoint tx₁ ms tx') :
    TakenIn l c endpoint tx (m :: ms) tx'

namespace TakenIn

variable {l : InboundLog} {c : ChunkStore} {endpoint : Endpoint} {tx tx' : Transaction κ}
  {ms : List RawMessage}

theorem sound (h : TakenIn l c endpoint tx ms tx') (hs : tx.Sound endpoint.name) :
    tx'.Sound endpoint.name := by
  induction h with
  | nil => exact hs
  | unnamed _ _ ih => exact ih hs
  | named hraw h _ ih =>
    obtain ⟨id, -, rfl⟩ := Settlement.ofMessage_ok hraw
    exact ih (h.sound hs)

theorem covers (h : TakenIn l c endpoint tx ms tx') :
    Covers endpoint.name (tx.log.view l) (tx.chunks.view c)
      (tx'.log.view l) (tx'.chunks.view c) := by
  induction h with
  | nil => exact .refl _ _
  | unnamed _ _ ih => exact ih
  | named hraw h _ ih =>
    obtain ⟨id, -, rfl⟩ := Settlement.ofMessage_ok hraw
    exact h.covers.trans ih

/-- Every message of a batch that was taken in is accounted for. -/
theorem accounts (h : TakenIn l c endpoint tx ms tx') :
    ∀ m ∈ ms, tx'.Accounts endpoint.name l c m := by
  induction h with
  | nil => simp
  | unnamed hraw _ ih =>
    intro m hm
    rcases List.mem_cons.mp hm with rfl | hm
    · intro id hid
      rw [Settlement.ofMessage_error hraw] at hid
      cases hid
    · exact ih m hm
  | named hraw h hrest ih =>
    intro m hm
    rcases List.mem_cons.mp hm with rfl | hm
    · exact (h.accounts hraw).mono hrest.covers
    · exact ih m hm

end TakenIn

/-- A batch got through the pipeline if its first message did, and then the others. -/
theorem Attempt.prepare_cons_ok {p : Pipeline κ} {endpoint : Endpoint} {m : RawMessage}
    {ms : List RawMessage} {out : List Message} {s t : Inbox κ}
    (h : prepare p endpoint (m :: ms) s = .ok out t) :
    ∃ raw first rest u, RawEnvelope.ofMessage endpoint m = .ok raw ∧
      p.process raw s = .ok first u ∧ prepare p endpoint ms u = .ok rest t ∧
      out = first.toList ++ rest := by
  obtain ⟨raw, u, h0, h1⟩ := bind_ok h
  obtain ⟨hraw, rfl⟩ := Inbound.ofExcept_ok.mp h0
  obtain ⟨first, v, hfirst, h2⟩ := bind_ok h1
  obtain ⟨rest, x, hrest, h3⟩ := bind_ok h2
  cases h3
  exact ⟨raw, first, rest, v, hraw, hfirst, hrest, rfl⟩

/-- The pipeline takes in the messages of a batch one after the other. -/
theorem Attempt.prepare_ok {wire : Wire} {endpoint : Endpoint} {ms : List RawMessage}
    {out : List Message} {s t : Inbox κ}
    (h : prepare (.create wire []) endpoint ms s = .ok out t) :
    TakenIn s.world.log s.world.chunks endpoint s.transaction ms t.transaction ∧
      Alike s.world t.world := by
  induction ms generalizing out s with
  | nil =>
    cases h
    exact ⟨.nil _, Std.Refl.refl _⟩
  | cons m ms ih =>
    obtain ⟨raw, first, rest, v, hraw, hfirst, hrest, rfl⟩ := Attempt.prepare_cons_ok h
    obtain ⟨-, o, hin, hv, -⟩ := Pipeline.process_ok hfirst
    obtain ⟨htaken, hx⟩ := ih hrest
    rw [hv.log, hv.chunks] at htaken
    exact ⟨.named hraw hin htaken, hv.trans hx⟩

theorem Attempt.prepare_error {wire : Wire} {endpoint : Endpoint} {ms : List RawMessage}
    {e : InboundError} {s t : Inbox κ}
    (h : prepare (.create wire []) endpoint ms s = .error e t) :
    Alike s.world t.world ∧ t.transaction.resources = s.transaction.resources := by
  induction ms generalizing s with
  | nil => cases h
  | cons m ms ih =>
    rcases bind_error h with h0 | ⟨raw, u, h0, h1⟩
    · obtain ⟨-, rfl⟩ := Inbound.ofExcept_error.mp h0
      exact ⟨Std.Refl.refl _, rfl⟩
    obtain ⟨-, rfl⟩ := Inbound.ofExcept_ok.mp h0
    rcases bind_error h1 with hfirst | ⟨first, v, hfirst, h2⟩
    · obtain ⟨hw, ⟨-, htx⟩ | ⟨payload, headers, hin, -⟩⟩ := Pipeline.process_error hfirst
      · exact ⟨hw, by rw [htx]⟩
      · exact ⟨hw, hin.resources⟩
    obtain ⟨-, o, hin, hv, -⟩ := Pipeline.process_ok hfirst
    rcases bind_error h2 with hrest | ⟨rest, x, -, h3⟩
    · obtain ⟨hw, hr⟩ := ih hrest
      exact ⟨hv.trans hw, hr.trans hin.resources⟩
    · cases h3

/-- So does settling. -/
theorem Settlement.many_ok {endpoint : Endpoint} {ms settled : List RawMessage} {s t : Inbox κ}
    (h : many endpoint ms s = .ok settled t) :
    TakenIn s.world.log s.world.chunks endpoint s.transaction ms t.transaction ∧
      Alike s.world t.world := by
  induction ms generalizing settled s with
  | nil =>
    cases h
    exact ⟨.nil _, Std.Refl.refl _⟩
  | cons m ms ih =>
    obtain ⟨first, v, hfirst, h2⟩ := bind_ok h
    obtain ⟨rest, x, hrest, h3⟩ := bind_ok h2
    cases h3
    obtain ⟨hv, hone⟩ := one_ok hfirst
    obtain ⟨htaken, hx⟩ := ih hrest
    rw [hv.log, hv.chunks] at htaken
    refine ⟨?_, hv.trans hx⟩
    cases hraw : RawEnvelope.ofMessage endpoint m with
    | error e =>
      rw [hraw] at hone
      rw [hone.2] at htaken
      exact .unnamed hraw htaken
    | ok raw =>
      rw [hraw] at hone
      obtain ⟨o, hin, -⟩ := hone
      exact .named hraw hin htaken

theorem Settlement.many_error {endpoint : Endpoint} {ms : List RawMessage} {e : InboundError}
    {s t : Inbox κ} (h : many endpoint ms s = .error e t) :
    e.Refused ∧ Alike s.world t.world ∧
      t.transaction.resources = s.transaction.resources := by
  induction ms generalizing s with
  | nil => cases h
  | cons m ms ih =>
    rcases bind_error h with hfirst | ⟨first, v, hfirst, h2⟩
    · obtain ⟨hrefused, htx, hw⟩ := one_error hfirst
      exact ⟨hrefused, hw, by rw [htx]⟩
    obtain ⟨hv, hone⟩ := one_ok hfirst
    have hr : v.transaction.resources = s.transaction.resources := by
      cases hraw : RawEnvelope.ofMessage endpoint m with
      | error e =>
        rw [hraw] at hone
        rw [hone.2]
      | ok raw =>
        rw [hraw] at hone
        obtain ⟨o, hin, -⟩ := hone
        exact hin.resources
    rcases bind_error h2 with hrest | ⟨rest, x, -, h3⟩
    · obtain ⟨hrefused, hw, hr'⟩ := ih hrest
      exact ⟨hrefused, hv.trans hw, hr'.trans hr⟩
    · cases h3

end Relay
