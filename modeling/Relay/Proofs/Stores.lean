import Mathlib.Data.List.Nodup
import Mathlib.Data.List.Perm.Basic
import Mathlib.Logic.Relation
import Relay.Chunk.Store
import Relay.InboundLog
/-!
# The content of the stores

`items` is what a store holds, whichever engine keeps it. Every answer of a store is a function of
its items, and every change that succeeds makes of the items what it would make of them in memory,
so that the two engines need no separate proofs further on.

Results:
- `Table.insert_items`, `delete_items`: rows in the order of their numbers are in the order in which
  they were added, wherever the database has put them.
- `InboundLog.contains_iff`, `append_items`: the log as a list without repetitions.
- `ChunkStore.get_items`, `store_items`, `cleanup_items`: the chunks as a list, in the order in which
  they have come.
- `InboundLog.Grown`: a log that is only appended to keeps its entries and gets no repetition.
- `Chunks.subset_store`, `exists_store`: what insertion makes of a list of chunks.
-/
namespace Relay

/-! ## Tables -/

namespace Table

variable {α : Type} {name : String} {sameKey : α → α → Bool} {texts : α → List String}

/-! ### The order of the rows -/

/-- Rows in the order of their numbers. -/
def byNumber (rows : List (Nat × α)) : List (Nat × α) := rows.mergeSort fun a b => a.1 ≤ b.1

theorem byNumber_perm (rows : List (Nat × α)) : (byNumber rows).Perm rows := List.mergeSort_perm _ _

theorem byNumber_ascending {rows : List (Nat × α)} (h : (rows.map Prod.fst).Nodup) :
    (byNumber rows).Pairwise fun r r' => r.1 < r'.1 := by
  have hle : (byNumber rows).Pairwise fun r r' => decide (r.1 ≤ r'.1) = true :=
    List.pairwise_mergeSort (fun a b c hab hbc => by simp only [decide_eq_true_eq] at *; omega)
      (fun a b => by simp only [Bool.or_eq_true, decide_eq_true_eq]; omega) rows
  have hne : (byNumber rows).Pairwise fun r r' => r.1 ≠ r'.1 :=
    List.pairwise_map.mp (((byNumber_perm rows).map Prod.fst).nodup_iff.mpr h)
  refine hle.imp₂ (fun r r' hle hne => ?_) hne
  have := of_decide_eq_true hle
  omega

/-- Rows that stand in the order of their numbers do so in one way only. -/
theorem byNumber_eq {rows sorted : List (Nat × α)} (hp : sorted.Perm rows)
    (hs : sorted.Pairwise fun r r' => r.1 < r'.1) : byNumber rows = sorted := by
  have hnodup : (rows.map Prod.fst).Nodup :=
    (hp.map Prod.fst).nodup_iff.mp (List.pairwise_map.mpr (hs.imp fun hlt => Nat.ne_of_lt hlt))
  refine List.Perm.eq_of_pairwise (fun a b _ _ hab hba => ?_) (byNumber_ascending hnodup) hs
    ((byNumber_perm rows).trans hp.symm)
  exact absurd (Nat.lt_trans hab hba) (Nat.lt_irrefl _)

theorem byNumber_filter {rows : List (Nat × α)} (h : (rows.map Prod.fst).Nodup)
    (p : Nat × α → Bool) : byNumber (rows.filter p) = (byNumber rows).filter p :=
  byNumber_eq ((byNumber_perm rows).filter p) ((byNumber_ascending h).filter p)

/-- A row whose number exceeds all others comes last, wherever it was put. -/
theorem byNumber_place (f : Filing α) {rows : List (Nat × α)} (h : (rows.map Prod.fst).Nodup)
    (n : Nat) (v : α) : byNumber (f.place n (f.number n rows, v) rows) =
      byNumber rows ++ [(f.number n rows, v)] := by
  refine byNumber_eq ?_ (List.pairwise_append.mpr
    ⟨byNumber_ascending h, List.pairwise_singleton _ _, fun r hr r' hr' => ?_⟩)
  · refine (List.perm_append_singleton _ _).trans (List.Perm.trans ?_ (f.place_perm n _ rows).symm)
    exact (byNumber_perm rows).cons _
  · rw [List.mem_singleton.mp hr']
    exact f.number_exceeds n rows r ((byNumber_perm rows).mem_iff.mp hr)

/-! ### The values of the rows -/

/-- The values of the rows, in the order of their numbers. -/
def items (t : Table α) : List α := (byNumber t.rows).map Prod.snd

theorem empty_items (filing : Filing α) : (empty filing).items = [] :=
  congrArg (List.map Prod.snd) List.mergeSort_nil

/-- The values in a table that may not have been set up. -/
def itemsOf (t : Option (Table α)) : List α := (t.map items).getD []

theorem items_perm (t : Table α) : t.items.Perm (t.rows.map Prod.snd) := (byNumber_perm _).map _

theorem find_ok {table : Option (Table α)} {ss : List String} {t : Table α}
    (h : find name table ss = .ok t) : table = some t := by
  unfold find at h
  split at h
  · cases table with
    | none => cases h
    | some t' => cases h; rfl
  · cases h

/-- A list with a value added, unless one of its key is there. -/
def added (sameKey : α → α → Bool) (vs : List α) (v : α) : List α :=
  if vs.any (sameKey · v) then vs else vs ++ [v]

/-- **A new row comes last.** -/
theorem insert_items (t : Table α) (v : α) : (t.insert v).items = t.items ++ [v] := by
  unfold items insert
  rw [byNumber_place _ t.distinct, List.map_append]
  rfl

theorem insertNew_items (t : Table α) (v : α) :
    (t.insertNew sameKey v).items = added sameKey t.items v := by
  have hany : t.items.any (sameKey · v) = t.rows.any fun r => sameKey r.2 v := by
    rw [t.items_perm.any_eq, List.any_map]
    rfl
  unfold insertNew added
  rw [hany]
  split
  · rfl
  · exact t.insert_items v

/-- **A selection by row number gives the values in the order in which they were added.** -/
theorem select_items (t : Table α) (p : α → Bool) : t.select p = t.items.filter p := by
  have hsorted : t.select p = (byNumber (t.rows.filter fun r => p r.2)).map Prod.snd := rfl
  rw [hsorted, byNumber_filter t.distinct, items, List.filter_map]
  rfl

theorem count_items (t : Table α) (p : α → Bool) : t.count p = (t.items.filter p).length := by
  rw [(t.items_perm.filter p).length_eq, List.filter_map, List.length_map]
  rfl

theorem delete_items (t : Table α) (p : α → Bool) :
    (t.delete p).items = t.items.filter fun v => !p v := by
  unfold items delete
  rw [byNumber_filter t.distinct, List.filter_map]
  rfl

theorem insertAll_items {table table' : Option (Table α)} {vs : List α}
    (h : insertAll name sameKey texts table vs = .ok table') :
    itemsOf table' = vs.foldl (added sameKey) (itemsOf table) := by
  unfold insertAll at h
  induction vs generalizing table with
  | nil => cases h; rfl
  | cons v vs ih =>
    rw [List.foldlM_cons] at h
    cases hf : find name table (texts v) with
    | error e => rw [hf] at h; cases h
    | ok t =>
      rw [hf] at h
      rw [ih h, find_ok hf, List.foldl_cons]
      exact congrArg (vs.foldl (added sameKey)) (insertNew_items t v)

/-- Values seen as others with the same keys are added as those. -/
theorem foldl_added_map {β : Type} {sameKey' : β → β → Bool} {f : α → β}
    (h : ∀ v w, sameKey v w = sameKey' (f v) (f w)) (vs new : List α) :
    (new.foldl (added sameKey) vs).map f = (new.map f).foldl (added sameKey') (vs.map f) := by
  induction new generalizing vs with
  | nil => rfl
  | cons v new ih =>
    have hadded : (added sameKey vs v).map f = added sameKey' (vs.map f) (f v) := by
      unfold added
      rw [List.any_map, apply_ite (List.map f), List.map_append]
      simp only [h]
      rfl
    rw [List.foldl_cons, ih, hadded]
    rfl

end Table

/-! ## The inbound log -/

namespace LogEntries

theorem appendOne_eq (es : List LogEntry) (e : LogEntry) :
    appendOne es e = Table.added (· == ·) es e := by
  have h : es.contains e = es.any (· == e) := by
    rw [Bool.eq_iff_iff, List.contains_iff_mem, List.any_eq_true]
    simp
  unfold appendOne Table.added
  rw [h]

theorem mem_appendOne {es : List LogEntry} {e x : LogEntry} :
    x ∈ appendOne es e ↔ x ∈ es ∨ x = e := by
  unfold appendOne
  split
  · next h =>
    rw [List.contains_iff_mem] at h
    exact ⟨Or.inl, fun hx => hx.elim id fun he => he ▸ h⟩
  · simp

theorem mem_append {es new : List LogEntry} {x : LogEntry} :
    x ∈ append es new ↔ x ∈ es ∨ x ∈ new := by
  unfold append
  induction new generalizing es with
  | nil => simp
  | cons e new ih =>
    rw [List.foldl_cons, ih, mem_appendOne, List.mem_cons, or_assoc]

theorem append_nodup {es : List LogEntry} (h : es.Nodup) (new : List LogEntry) :
    (append es new).Nodup := by
  unfold append
  induction new generalizing es with
  | nil => exact h
  | cons e new ih =>
    refine ih ?_
    unfold appendOne
    split
    · exact h
    · next hn =>
      rw [List.contains_iff_mem] at hn
      rw [← List.concat_eq_append]
      exact h.concat hn

end LogEntries

namespace InboundLog

/-- The entries in the log. -/
def items : InboundLog → List LogEntry
  | .memory es => es
  | .table t => Table.itemsOf t

theorem contains_iff {l : InboundLog} {id endpoint : String} {b : Bool}
    (h : l.contains id endpoint = .ok b) : b = true ↔ ⟨id, endpoint⟩ ∈ l.items := by
  cases l with
  | memory es =>
    cases h
    exact List.contains_iff_mem
  | table t =>
    dsimp only [contains] at h
    cases hf : Table.find tableName t [id, endpoint] with
    | error e => rw [hf] at h; cases h
    | ok u =>
      rw [hf] at h
      cases h
      rw [Table.find_ok hf]
      change (decide (0 < u.count _) = true) ↔ _ ∈ u.items
      rw [decide_eq_true_iff, Table.count_items, List.length_pos_iff_exists_mem]
      constructor
      · rintro ⟨e, he⟩
        obtain ⟨hm, hk⟩ := List.mem_filter.mp he
        rw [Bool.and_eq_true, beq_iff_eq, beq_iff_eq] at hk
        rwa [← hk.1, ← hk.2]
      · intro hm
        exact ⟨_, List.mem_filter.mpr ⟨hm, by simp⟩⟩

theorem append_items {l l' : InboundLog} {new : List LogEntry} (h : l.append new = .ok l') :
    l'.items = LogEntries.append l.items new := by
  cases l with
  | memory es => cases h; rfl
  | table t =>
    dsimp only [append] at h
    cases hi : Table.insertAll tableName (· == ·) (fun e => [e.messageId, e.endpoint]) t new with
    | error e => rw [hi] at h; cases h
    | ok t' =>
      rw [hi] at h
      cases h
      change Table.itemsOf t' = _
      rw [Table.insertAll_items hi]
      unfold LogEntries.append
      congr 1
      funext es e
      exact (LogEntries.appendOne_eq es e).symm

/-- One log has become the other by appending to it, any number of times. -/
def Grown : InboundLog → InboundLog → Prop :=
  Relation.ReflTransGen fun l l' => ∃ es, l.append es = .ok l'

namespace Grown

variable {l l' l'' : InboundLog}

theorem refl (l : InboundLog) : Grown l l := Relation.ReflTransGen.refl

theorem trans (h : Grown l l') (h' : Grown l' l'') : Grown l l'' := Relation.ReflTransGen.trans h h'

theorem append {es : List LogEntry} (h : l.append es = .ok l') : Grown l l' := .single ⟨es, h⟩

theorem subset (h : Grown l l') {e : LogEntry} (he : e ∈ l.items) : e ∈ l'.items := by
  induction h with
  | refl => exact he
  | tail _ ha ih =>
    obtain ⟨es, ha⟩ := ha
    rw [append_items ha]
    exact LogEntries.mem_append.mpr (Or.inl ih)

/-- A log without repetitions never gets one. -/
theorem nodup (h : Grown l l') (hn : l.items.Nodup) : l'.items.Nodup := by
  induction h with
  | refl => exact hn
  | tail _ ha ih =>
    obtain ⟨es, ha⟩ := ha
    rw [append_items ha]
    exact LogEntries.append_nodup ih es

end Grown

end InboundLog

/-! ## The chunk store -/

namespace Chunks

theorem sameKey_iff {c d : Chunk} :
    c.sameKey d = true ↔ c.messageId = d.messageId ∧ c.index = d.index := by
  unfold Chunk.sameKey
  rw [Bool.and_eq_true, beq_iff_eq, beq_iff_eq]

theorem subset_store {cs new : List Chunk} {c : Chunk} (h : c ∈ cs) : c ∈ store cs new := by
  unfold store
  induction new generalizing cs with
  | nil => exact h
  | cons d new ih =>
    refine ih ?_
    unfold storeOne
    split
    · exact h
    · exact List.mem_append_left _ h

theorem mem_store {cs new : List Chunk} {c : Chunk} (h : c ∈ store cs new) : c ∈ cs ∨ c ∈ new := by
  unfold store at h
  induction new generalizing cs with
  | nil => exact Or.inl h
  | cons d new ih =>
    rcases ih h with hs | hn
    · unfold storeOne at hs
      split at hs
      · exact Or.inl hs
      · rcases List.mem_append.mp hs with hc | hd
        · exact Or.inl hc
        · rw [List.mem_singleton.mp hd]
          exact Or.inr List.mem_cons_self
    · exact Or.inr (List.mem_cons_of_mem _ hn)

/-- A stored chunk has a place in the store, taken by it or by another one of its key. -/
theorem exists_store {cs new : List Chunk} {c : Chunk} (h : c ∈ new) :
    ∃ d ∈ store cs new, d.messageId = c.messageId ∧ d.index = c.index := by
  unfold store
  induction new generalizing cs with
  | nil => cases h
  | cons e new ih =>
    rcases List.mem_cons.mp h with rfl | h
    · obtain ⟨d, hd, hk⟩ : ∃ d ∈ storeOne cs c, d.messageId = c.messageId ∧ d.index = c.index := by
        unfold storeOne
        split
        · next ha =>
          obtain ⟨d, hd, hk⟩ := List.any_eq_true.mp ha
          exact ⟨d, hd, sameKey_iff.mp hk⟩
        · exact ⟨c, List.mem_append_right _ List.mem_cons_self, rfl, rfl⟩
      have hs : d ∈ store (storeOne cs c) new := subset_store hd
      exact ⟨d, hs, hk⟩
    · exact ih h

end Chunks

namespace ChunkRow

theorem toChunk_ofChunk (c : Chunk) : (ofChunk c).toChunk = c := by
  unfold toChunk ofChunk
  rw [narrow_widen, narrow_widen]

/-- The primary key tells rows apart as their ids and indexes tell chunks apart. -/
theorem sameKey_toChunk (r s : ChunkRow) : r.sameKey s = Chunk.sameKey r.toChunk s.toChunk := by
  have hindex : r.index = s.index ↔ narrow r.index = narrow s.index :=
    ⟨congrArg narrow, fun h => by rw [← r.index_word, ← s.index_word, h]⟩
  unfold sameKey Chunk.sameKey
  rw [Bool.eq_iff_iff, Bool.and_eq_true, Bool.and_eq_true, beq_iff_eq, beq_iff_eq, beq_iff_eq,
    beq_iff_eq, hindex]
  rfl

end ChunkRow

namespace ChunkStore

/-- The chunks in the store. -/
def items : ChunkStore → List Chunk
  | .memory cs => cs
  | .table t => (Table.itemsOf t).map ChunkRow.toChunk

/-- The chunks in the rows of a message are the chunks of the message in the rows. -/
theorem ofMessage_rows (rs : List ChunkRow) (id : String) :
    Chunks.ofMessage (rs.map ChunkRow.toChunk) id =
      (rs.filter fun r => r.messageId == id).map ChunkRow.toChunk := List.filter_map

theorem get_items {s : ChunkStore} {id : String} {cs : List Chunk} (h : s.get id = .ok cs) :
    cs = Chunks.ofMessage s.items id := by
  cases s with
  | memory ds => cases h; rfl
  | table t =>
    dsimp only [get] at h
    cases hf : Table.find tableName t [id] with
    | error e => rw [hf] at h; cases h
    | ok u =>
      rw [hf] at h
      cases h
      rw [Table.find_ok hf]
      change _ = Chunks.ofMessage (u.items.map ChunkRow.toChunk) id
      rw [ofMessage_rows, Table.select_items]

theorem store_items {s s' : ChunkStore} {new : List Chunk} (h : s.store new = .ok s') :
    s'.items = Chunks.store s.items new := by
  cases s with
  | memory cs => cases h; rfl
  | table t =>
    dsimp only [store] at h
    cases hi : Table.insertAll tableName ChunkRow.sameKey (fun r => [r.messageId]) t
        (new.map ChunkRow.ofChunk) with
    | error e => rw [hi] at h; cases h
    | ok t' =>
      rw [hi] at h
      cases h
      change (Table.itemsOf t').map _ = Chunks.store ((Table.itemsOf t).map _) new
      rw [Table.insertAll_items hi, Table.foldl_added_map ChunkRow.sameKey_toChunk, List.map_map]
      have hback : ChunkRow.toChunk ∘ ChunkRow.ofChunk = id := funext ChunkRow.toChunk_ofChunk
      rw [hback, List.map_id]
      rfl

theorem cleanup_items {s s' : ChunkStore} {ids : List String} (h : s.cleanup ids = .ok s') :
    s'.items = Chunks.cleanup s.items ids := by
  cases s with
  | memory cs => cases h; rfl
  | table t =>
    dsimp only [cleanup] at h
    split at h
    · next he =>
      cases h
      rw [List.isEmpty_iff.mp he]
      simp [Chunks.cleanup]
    · cases hf : Table.find tableName t ids with
      | error e => rw [hf] at h; cases h
      | ok u =>
        rw [hf] at h
        cases h
        rw [Table.find_ok hf]
        change (Table.items (u.delete _)).map _ = Chunks.cleanup (u.items.map _) ids
        unfold Chunks.cleanup
        rw [Table.delete_items, List.filter_map]
        rfl

end ChunkStore

end Relay
