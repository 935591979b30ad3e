import Mathlib.Data.List.Perm.Subperm
import Relay.Proofs.Accounting
import Relay.Proofs.Producer
/-!
# Assembling one message

`Awaiting` says of what a transaction shows of one message that it is not yet logged and that the
chunks which have come of it are parked, and no others. A parcel of the message leaves it so or,
if it is the last one that was missing, brings out the message as it was packed and logs it
(`Awaiting.intake`); messages of other ids and commits are no matter to it (`Intake.other`,
`Awaiting.commit`).
-/
namespace Relay

open World (Alike)

variable {κ : Type}

/-! ## The chunks of one message -/

namespace Chunks

theorem ofMessage_append (cs ds : List Chunk) (id : String) :
    ofMessage (cs ++ ds) id = ofMessage cs id ++ ofMessage ds id := List.filter_append cs ds

theorem ofMessage_of_ne {c : Chunk} {id : String} (h : c.messageId ≠ id) : ofMessage [c] id = [] := by
  unfold ofMessage
  rw [List.filter_cons_of_neg (by simpa using h), List.filter_nil]

theorem ofMessage_of_eq {c : Chunk} {id : String} (h : c.messageId = id) : ofMessage [c] id = [c] := by
  unfold ofMessage
  rw [List.filter_cons_of_pos (by simpa using h), List.filter_nil]

/-- Chunks of a message that have different indexes are all stored. -/
theorem ofMessage_store {cs new : List Chunk} {id : String}
    (hn : ((ofMessage (cs ++ new) id).map Chunk.index).Nodup) :
    ofMessage (store cs new) id = ofMessage (cs ++ new) id := by
  unfold store
  induction new generalizing cs with
  | nil => rw [List.append_nil, List.foldl_nil]
  | cons c new ih =>
    have hone : ofMessage (storeOne cs c) id = ofMessage (cs ++ [c]) id := by
      unfold storeOne
      split
      · next hany =>
        by_cases hid : c.messageId = id
        · -- there would be two chunks with one index
          obtain ⟨d, hd, hk⟩ := List.any_eq_true.mp hany
          obtain ⟨hdid, hindex⟩ := sameKey_iff.mp hk
          have hdm : d ∈ ofMessage cs id := List.mem_filter.mpr ⟨hd, by simp [hdid, hid]⟩
          have happ : cs ++ c :: new = cs ++ ([c] ++ new) := rfl
          rw [happ, ofMessage_append, ofMessage_append, ofMessage_of_eq hid, List.map_append,
            List.nodup_append'] at hn
          refine absurd (hn.2.2 (List.mem_map_of_mem hdm) ?_) (by simp)
          rw [hindex]
          exact List.mem_map_of_mem (List.mem_append_left _ (List.mem_singleton_self c))
        · rw [ofMessage_append, ofMessage_of_ne hid, List.append_nil]
      · rfl
    have hrest : ofMessage (storeOne cs c ++ new) id = ofMessage (cs ++ c :: new) id := by
      rw [ofMessage_append, hone, ← ofMessage_append, List.append_assoc, List.singleton_append]
    rw [List.foldl_cons, ih (by rw [hrest]; exact hn), hrest]

end Chunks

namespace ChunkSession

/-- The chunks of a message that a session shows over a store. -/
def parked (s : ChunkSession) (c : ChunkStore) (id : String) : List Chunk :=
  Chunks.ofMessage (s.view c) id

variable {c : ChunkStore} {id : String}

theorem parked_store (s : ChunkSession) {d : Chunk} (h : d.messageId = id) :
    (s.store d).parked c id = s.parked c id ++ [d] := by
  unfold parked
  rw [view_store, Chunks.ofMessage_append, Chunks.ofMessage_of_eq h]

theorem parked_store_of_ne (s : ChunkSession) {d : Chunk} (h : d.messageId ≠ id) :
    (s.store d).parked c id = s.parked c id := by
  unfold parked
  rw [view_store, Chunks.ofMessage_append, Chunks.ofMessage_of_ne h, List.append_nil]

theorem parked_cleanup_of_ne (s : ChunkSession) {other : String} (h : other ≠ id) :
    (s.cleanup other).parked c id = s.parked c id := by
  unfold parked Chunks.ofMessage
  rw [view_cleanup, List.filter_filter]
  refine List.filter_congr fun d _ => ?_
  by_cases hd : d.messageId = id
  · have hne : id ≠ other := fun he => h he.symm
    simp [hd, hne]
  · simp [hd]

theorem parked_empty (c : ChunkStore) (id : String) :
    ({} : ChunkSession).parked c id = Chunks.ofMessage c.items id := by
  unfold parked
  rw [view_empty]

end ChunkSession

theorem LogSession.mem_view_empty {l : InboundLog} {e : LogEntry} :
    e ∈ ({} : LogSession).view l ↔ e ∈ l.items := by
  rw [view_empty]

/-- Taking in a message says nothing about a message of another id. -/
theorem Intake.other {l : InboundLog} {c : ChunkStore} {raw : RawEnvelope} {tx tx' : Transaction κ}
    {o : Option (Bytes × Headers)} (h : Intake l c raw tx o tx') {id : String}
    (hid : raw.messageId ≠ id) (endpoint : String) :
    tx'.chunks.parked c id = tx.chunks.parked c id ∧
      (⟨id, endpoint⟩ ∈ tx'.log.view l ↔ ⟨id, endpoint⟩ ∈ tx.log.view l) := by
  have hadd : ∀ s : LogSession, ⟨id, endpoint⟩ ∈ (s.add ⟨raw.messageId, raw.endpoint.name⟩).view l ↔
      ⟨id, endpoint⟩ ∈ s.view l := by
    intro s
    have hne : (⟨id, endpoint⟩ : LogEntry) ≠ ⟨raw.messageId, raw.endpoint.name⟩ :=
      fun he => hid (congrArg LogEntry.messageId he).symm
    unfold LogSession.view LogSession.add
    simp [hne]
  cases h with
  | known => exact ⟨rfl, Iff.rfl⟩
  | plain => exact ⟨rfl, hadd _⟩
  | @held position existing _ _ _ htake =>
    refine ⟨?_, Iff.rfl⟩
    rcases tx.chunks.take_cases existing raw.messageId position raw.payload with
      ⟨-, ht⟩ | ⟨count, ht⟩ | ⟨joined, ht⟩
    · rw [ht]
    · rw [ht]
      exact tx.chunks.parked_store_of_ne hid
    · rw [ht] at htake
      cases htake
  | @joined position existing payload _ _ _ htake =>
    refine ⟨?_, hadd _⟩
    rcases tx.chunks.take_cases existing raw.messageId position raw.payload with
      ⟨-, ht⟩ | ⟨count, ht⟩ | ⟨joined, ht⟩
    · rw [ht] at htake
      cases htake
    · rw [ht] at htake
      cases htake
    · rw [ht]
      exact tx.chunks.parked_cleanup_of_ne hid

/-- **What a chunk of a set does** beside those that have come of the set: one that is there changes
nothing, another one is parked while chunks are missing, and the last one brings out the
payload. -/
theorem ChunkSet.take {id : String} {payload : Bytes} {all : List Chunk}
    (hs : ChunkSet id payload all) {c : Chunk} (hc : c ∈ all) {existing : List Chunk}
    (hn : existing.Nodup) (hsub : ∀ d ∈ existing, d ∈ all) (s : ChunkSession) :
    s.take existing id ⟨c.index, c.count⟩ c.content =
      if c ∈ existing then (none, s)
      else if existing.length + 1 < all.length then (none, s.store c)
      else (some payload, s.cleanup id) := by
  by_cases hin : c ∈ existing
  · rw [if_pos hin, s.take_duplicate id c.content hin rfl]
  have hany : ¬ (existing.any fun d => d.index == c.index) = true := by
    intro hany
    obtain ⟨d, hd, hindex⟩ := List.any_eq_true.mp hany
    exact hin (hs.eq_of_index (hsub d hd) hc (beq_iff_eq.mp hindex) ▸ hd)
  have hcount : (ChunkSession.expected existing ⟨c.index, c.count⟩) = c.count := by
    cases existing with
    | nil => rfl
    | cons d ds =>
      refine UInt32.toNat_inj.mp ?_
      rw [hs.count c hc]
      exact hs.count d (hsub d List.mem_cons_self)
  have hchunk : (⟨id, c.index, c.count, c.content⟩ : Chunk) = c := by
    rw [← hs.messageId c hc]
  unfold ChunkSession.take
  rw [ChunkSession.arrive_eq, if_neg hany, hcount, hs.count c hc, hchunk, if_neg hin]
  by_cases hlt : existing.length + 1 < all.length
  · rw [if_pos hlt, if_pos hlt]
  · rw [if_neg hlt, if_neg hlt]
    dsimp only
    have hnodup : (existing ++ [c]).Nodup :=
      List.nodup_append'.mpr ⟨hn, List.nodup_singleton c, by simpa using hin⟩
    have hsubset : existing ++ [c] ⊆ all := by
      intro d hd
      rcases List.mem_append.mp hd with hd | hd
      · exact hsub d hd
      · rw [List.mem_singleton.mp hd]
        exact hc
    have hperm : (existing ++ [c]).Perm all := by
      refine (List.subperm_of_subset hnodup hsubset).perm_of_length_le ?_
      rw [List.length_append, List.length_singleton]
      omega
    rw [hs.join_perm hperm]

/-! ## A message on its way -/

/-- A message on its way: its id, what it was packed to, the headers, and what went out for it. -/
structure Shipment where
  id : String
  packed : Bytes
  headers : Headers
  /-- The chunks that went out, none where the message went out in one piece. -/
  all : List Chunk
  parcels : List (Bytes × Headers)
  posted : Posted id packed headers all parcels
  named : headers.get? Headers.messageId = some id
  unindexed : headers.get? Headers.chunkIndex = none
  uncounted : headers.get? Headers.chunksCount = none

namespace Shipment

variable {s : Shipment} {p : Bytes × Headers}

/-- A parcel is the message in one piece or one of its chunks. -/
theorem parcel_cases (hp : p ∈ s.parcels) :
    (s.all = [] ∧ p = (s.packed, s.headers) ∧ ChunkHeaders.read p.2 = .ok none) ∨
      ChunkSet s.id s.packed s.all ∧ ∃ c ∈ s.all, p = c.parcel s.headers ∧
        ChunkHeaders.read p.2 = .ok (some ⟨c.index, c.count⟩) := by
  obtain ⟨id, packed, headers, all, parcels, posted, named, unindexed, uncounted⟩ := s
  cases posted with
  | whole =>
    have he : p = (packed, headers) := List.mem_singleton.mp hp
    rw [he]
    exact Or.inl ⟨rfl, rfl, ChunkHeaders.read_none unindexed⟩
  | cut hall =>
    obtain ⟨c, hc, rfl⟩ := List.mem_map.mp hp
    exact Or.inr ⟨hall, c, hc, rfl, ChunkHeaders.read_write (hall.range c hc) headers⟩

theorem parcel_named (hp : p ∈ s.parcels) : p.2.get? Headers.messageId = some s.id := by
  rcases parcel_cases hp with ⟨-, rfl, -⟩ | ⟨-, c, -, rfl, -⟩
  · exact s.named
  · exact (ChunkHeaders.get?_write _ _ (by decide) (by decide)).trans s.named

theorem length_parcels (s : Shipment) (h : s.all ≠ []) : s.parcels.length = s.all.length := by
  obtain ⟨id, packed, headers, all, parcels, posted, named, unindexed, uncounted⟩ := s
  cases posted with
  | whole => exact absurd rfl h
  | cut => exact List.length_map _

theorem remove_parcel (c : Chunk) : ChunkHeaders.remove (c.parcel s.headers).2 = s.headers :=
  ChunkHeaders.remove_write _ s.unindexed s.uncounted

/-- The message is not logged, the parcels of it that were seen are parked, and one is missing. -/
structure Awaiting (s : Shipment) (endpoint : String) (seen : List (Bytes × Headers))
    (logged : List LogEntry) (parked : List Chunk) : Prop where
  unlogged : ⟨s.id, endpoint⟩ ∉ logged
  nodup : (parked.map Chunk.index).Nodup
  subset : ∀ c ∈ parked, c ∈ s.all
  seen : ∀ p ∈ seen, p ∈ s.parcels → ∃ c ∈ parked, p = c.parcel s.headers
  missing : parked.length < s.parcels.length

namespace Awaiting

variable {endpoint : String} {seen : List (Bytes × Headers)} {logged : List LogEntry}
  {parked : List Chunk}

/-- Some parcel has not come yet. -/
theorem incomplete (h : s.Awaiting endpoint seen logged parked) : ∃ p ∈ s.parcels, p ∉ seen := by
  by_contra hno
  push Not at hno
  obtain ⟨id, packed, headers, all, parcels, posted, named, unindexed, uncounted⟩ := s
  cases posted with
  | whole =>
    have hself : (packed, headers) ∈ [(packed, headers)] := List.mem_singleton_self _
    obtain ⟨c, hc, -⟩ := h.seen _ (hno _ hself) hself
    cases h.subset c hc
  | cut hall =>
    have hsub : all ⊆ parked := by
      intro c hc
      have hparcel := List.mem_map_of_mem (f := fun c : Chunk => c.parcel headers) hc
      obtain ⟨d, hd, he⟩ := h.seen _ (hno _ hparcel) hparcel
      have hread := ChunkHeaders.read_write (c := ⟨c.index, c.count⟩) (hall.range c hc) headers
      have hheaders := congrArg Prod.snd he
      dsimp only [Chunk.parcel] at hheaders
      rw [hheaders, ChunkHeaders.read_write (c := ⟨d.index, d.count⟩)
        (hall.range d (h.subset d hd))] at hread
      injection hread with hread
      injection hread with hread
      have hindex : d.index = c.index := congrArg ChunkHeaders.index hread
      rw [← hall.eq_of_index (h.subset d hd) hc hindex]
      exact hd
    have hle := (List.subperm_of_subset hall.nodup hsub).length_le
    have hmissing := h.missing
    dsimp only at hmissing
    rw [List.length_map] at hmissing
    omega

/-- Seeing another parcel changes no more than what is asked of it. -/
theorem see (h : s.Awaiting endpoint seen logged parked)
    (hp : p ∈ s.parcels → ∃ c ∈ parked, p = c.parcel s.headers) :
    s.Awaiting endpoint (seen ++ [p]) logged parked := by
  refine ⟨h.unlogged, h.nodup, h.subset, ?_, h.missing⟩
  intro q hq hqs
  rcases List.mem_append.mp hq with hq | hq
  · exact h.seen q hq hqs
  · rw [List.mem_singleton.mp hq] at hqs ⊢
    exact hp hqs

/-- A chunk that has not come yet is parked, and another one is missing still. -/
theorem park (h : s.Awaiting endpoint seen logged parked) (hall : ChunkSet s.id s.packed s.all)
    {d : Chunk} (hd : d ∈ s.all) (hnew : d ∉ parked) (hlt : parked.length + 1 < s.all.length) :
    s.Awaiting endpoint seen logged (parked ++ [d]) := by
  refine ⟨h.unlogged, ?_, ?_, ?_, ?_⟩
  · rw [List.map_append, List.nodup_append']
    refine ⟨h.nodup, List.nodup_singleton _, ?_⟩
    intro i hi hi'
    obtain ⟨e, he, rfl⟩ := List.mem_map.mp hi
    have hindex : e.index = d.index := List.mem_singleton.mp hi'
    have heq : e = d := hall.eq_of_index (h.subset e he) hd hindex
    exact hnew (heq ▸ he)
  · intro e he
    rcases List.mem_append.mp he with he | he
    · exact h.subset e he
    · rw [List.mem_singleton.mp he]
      exact hd
  · intro q hq hqs
    obtain ⟨e, he, hqe⟩ := h.seen q hq hqs
    exact ⟨e, List.mem_append_left _ he, hqe⟩
  · have hparcels : s.parcels.length = s.all.length := s.length_parcels hall.nonempty
    rw [List.length_append, List.length_singleton]
    omega

variable {l : InboundLog} {c : ChunkStore} {raw : RawEnvelope} {tx tx' : Transaction κ}
  {o : Option (Bytes × Headers)}

/-- What becomes of a parcel that is a chunk, beside those that are parked. -/
theorem taken {position : ChunkHeaders} {existing : List Chunk}
    (h : s.Awaiting endpoint seen logged (tx.chunks.parked c s.id)) (hid : raw.messageId = s.id)
    (hp : (raw.payload, raw.headers) ∈ s.parcels)
    (hread : ChunkHeaders.read raw.headers = .ok (some position))
    (hsees : tx.chunks.sees c raw.messageId = .ok existing) :
    ChunkSet s.id s.packed s.all ∧ ∃ d ∈ s.all, (raw.payload, raw.headers) = d.parcel s.headers ∧
      existing.Perm (tx.chunks.parked c s.id) ∧
      tx.chunks.take existing raw.messageId position raw.payload =
        if d ∈ existing then (none, tx.chunks)
        else if existing.length + 1 < s.all.length then (none, tx.chunks.store d)
        else (some s.packed, tx.chunks.cleanup s.id) := by
  rcases parcel_cases hp with ⟨-, -, hnone⟩ | ⟨hall, d, hd, hparcel, hsome⟩
  · rw [hread] at hnone
    cases hnone
  · rw [hread] at hsome
    cases hsome
    have hperm := List.Perm.of_eq (ChunkSession.sees_eq hsees)
    rw [hid] at hperm ⊢
    have hpayload : raw.payload = d.content := congrArg Prod.fst hparcel
    rw [hpayload]
    refine ⟨hall, d, hd, hpayload ▸ hparcel, hperm, ?_⟩
    refine hall.take hd ?_ (fun e he => h.subset e (hperm.mem_iff.mp he)) tx.chunks
    exact hperm.nodup_iff.mpr h.nodup.of_map

/-- Taking in a parcel of the message. -/
theorem intake (h : s.Awaiting endpoint seen (tx.log.view l) (tx.chunks.parked c s.id))
    (hin : Intake l c raw tx o tx') (hid : raw.messageId = s.id)
    (hend : raw.endpoint.name = endpoint) (hp : (raw.payload, raw.headers) ∈ s.parcels) :
    (o = none ∧ s.Awaiting endpoint (seen ++ [(raw.payload, raw.headers)]) (tx'.log.view l)
        (tx'.chunks.parked c s.id)) ∨
      (o = some (s.packed, s.headers) ∧ ⟨s.id, endpoint⟩ ∈ tx'.log.view l) := by
  have hlogged : ∀ tx : Transaction κ, ⟨s.id, endpoint⟩ ∈
      (tx.logged raw.messageId raw.endpoint.name).log.view l := by
    intro tx
    rw [hid, hend]
    simp [Transaction.logged, LogSession.view, LogSession.add]
  cases hin with
  | known hlog =>
    rw [hid, hend] at hlog
    exact absurd ((LogSession.sees_iff hlog).mp rfl) h.unlogged
  | plain hlog hread =>
    rcases parcel_cases hp with ⟨-, hparcel, -⟩ | ⟨-, d, -, -, hsome⟩
    · exact Or.inr ⟨congrArg some hparcel, hlogged tx⟩
    · rw [Settlement.isChunk_iff.mpr ⟨_, hsome⟩] at hread
      cases hread
  | @joined position existing payload hlog hread hsees htake =>
    obtain ⟨-, d, -, hparcel, -, ht⟩ := h.taken hid hp hread hsees
    have hheaders : ChunkHeaders.remove raw.headers = s.headers := by
      have he : raw.headers = (d.parcel s.headers).2 := congrArg Prod.snd hparcel
      rw [he]
      exact remove_parcel d
    refine Or.inr ⟨?_, hlogged _⟩
    rw [ht] at htake
    split at htake
    · cases htake
    · split at htake
      · cases htake
      · cases htake
        rw [hheaders]
  | @held position existing hlog hread hsees htake =>
    obtain ⟨hall, d, hd, hparcel, hperm, ht⟩ := h.taken hid hp hread hsees
    refine Or.inl ⟨rfl, ?_⟩
    rw [ht] at htake ⊢
    by_cases hmem : d ∈ existing
    · rw [if_pos hmem]
      exact h.see fun _ => ⟨d, hperm.mem_iff.mp hmem, hparcel⟩
    · rw [if_neg hmem] at htake ⊢
      by_cases hlt : existing.length + 1 < s.all.length
      · rw [if_pos hlt]
        have hparked : (tx.chunks.store d).parked c s.id = tx.chunks.parked c s.id ++ [d] :=
          tx.chunks.parked_store (hall.messageId d hd)
        have hnew : d ∉ tx.chunks.parked c s.id := fun hin => hmem (hperm.mem_iff.mpr hin)
        rw [hperm.length_eq] at hlt
        dsimp only
        rw [hparked]
        refine (h.park hall hd hnew hlt).see fun _ => ?_
        exact ⟨d, List.mem_append_right _ (List.mem_singleton_self d), hparcel⟩
      · rw [if_neg hlt] at htake
        cases htake

/-- A commit leaves what is awaited as it is. -/
theorem commit {wire : Wire} {w w' : World κ}
    (h : s.Awaiting endpoint seen (tx.log.view w.log) (tx.chunks.parked w.chunks s.id))
    (hr : tx.resources = []) (hc : tx.commit wire w = .ok () w') :
    s.Awaiting endpoint seen (({} : LogSession).view w'.log)
      (({} : ChunkSession).parked w'.chunks s.id) := by
  obtain ⟨log, chunks, hlog, hchunks, hw⟩ := Transaction.commit_ok endpoint hr hc
  have hparked : ({} : ChunkSession).parked w'.chunks s.id = tx.chunks.parked w.chunks s.id := by
    rw [ChunkSession.parked_empty, hw.chunks]
    change Chunks.ofMessage chunks.items s.id = _
    rw [ChunkSession.applied_items hchunks]
    exact Chunks.ofMessage_store h.nodup
  rw [hparked]
  refine ⟨?_, h.nodup, h.subset, h.seen, h.missing⟩
  rw [LogSession.mem_view_empty, hw.log]
  change ⟨s.id, endpoint⟩ ∉ log.items
  rw [InboundLog.append_items hlog, LogEntries.mem_append, ← List.mem_append]
  exact h.unlogged

end Awaiting

end Shipment

/-- What a transaction shows of the log is in the log after its commit. -/
theorem Transaction.commit_logged {wire : Wire} {tx : Transaction κ} {w w' : World κ}
    (hr : tx.resources = []) (hc : tx.commit wire w = .ok () w') {e : LogEntry}
    (he : e ∈ tx.log.view w.log) : e ∈ ({} : LogSession).view w'.log := by
  obtain ⟨log, chunks, hlog, -, hw⟩ := commit_ok e.endpoint hr hc
  rw [LogSession.mem_view_empty, hw.log]
  change e ∈ log.items
  rw [InboundLog.append_items hlog, LogEntries.mem_append, ← List.mem_append]
  exact he

end Relay
