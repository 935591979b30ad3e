import Relay.Proofs.Foresight
import Relay.Proofs.Obliging
/-!
# What a write makes of the answers

A look-up after a write answers what the write makes of the answer before it, for every message and
whichever engine keeps the store: `append_contains` for the log, `cleanup_get` and `store_get` for the
chunks. A write leaves the store of the kind it was (`Kin`), so that look-ups which were refused are
refused as before. And only a store that answers for the messages of a write takes it
(`append_answers`, `cleanup_answers`, `store_answers`), which is the converse of `append_answered` and
its like.
-/
namespace Relay

/-! ## Tables -/

namespace Table

variable {α : Type} {name : String} {sameKey : α → α → Bool} {texts : α → List String}
  {table table' : Option (Table α)} {vs : List α} {ss : List String} {e : StoreError}

theorem insertAll_isSome (h : insertAll name sameKey texts table vs = .ok table') :
    table'.isSome = table.isSome := by
  unfold insertAll at h
  induction vs generalizing table with
  | nil => cases h; rfl
  | cons v vs ih =>
    rw [List.foldlM_cons] at h
    cases hf : find name table (texts v) with
    | error e => rw [hf] at h; cases h
    | ok t =>
      rw [hf] at h
      rw [ih h, find_ok hf]
      rfl

/-- Values were inserted only where the table can be asked about their texts. -/
theorem insertAll_find (h : insertAll name sameKey texts table vs = .ok table') :
    ∀ v ∈ vs, (texts v).all canHold = true ∧ ∃ t, table = some t := by
  unfold insertAll at h
  induction vs generalizing table with
  | nil => exact fun _ hv => by cases hv
  | cons v vs ih =>
    rw [List.foldlM_cons] at h
    cases hf : find name table (texts v) with
    | error e => rw [hf] at h; cases h
    | ok t =>
      rw [hf] at h
      obtain ⟨hv, ht⟩ := find_ok_iff.mp hf
      exact List.forall_mem_cons.mpr ⟨⟨hv, t, ht⟩, fun v' hv' => ⟨(ih h v' hv').1, t, ht⟩⟩

/-- Whether a statement can be run does not depend on the rows. -/
theorem find_error (hs : table'.isSome = table.isSome) (h : find name table ss = .error e) :
    find name table' ss = .error e := by
  unfold find at h ⊢
  split at h
  · next hall =>
    rw [if_pos hall]
    cases table with
    | some t => cases h
    | none =>
      cases table' with
      | some t => cases hs
      | none => exact h
  · next hall => rwa [if_neg hall]

end Table

/-! ## The inbound log -/

namespace InboundLog

variable {l l' : InboundLog} {new : List LogEntry} {id endpoint : String}

/-- Two logs in one engine, both set up or neither. -/
def Kin : InboundLog → InboundLog → Prop
  | .memory _, .memory _ => True
  | .table t, .table t' => t'.isSome = t.isSome
  | _, _ => False

theorem Kin.answers (h : Kin l l') (ha : l.Answers id endpoint) : l'.Answers id endpoint := by
  cases l <;> cases l'
  · exact ⟨_, rfl⟩
  · exact h.elim
  · exact h.elim
  · obtain ⟨hall, ht⟩ := answers_table.mp ha
    refine answers_table.mpr ⟨hall, ?_⟩
    rw [← Option.isSome_iff_exists] at ht ⊢
    exact h.trans ht

theorem Kin.refuses (h : Kin l l') {e : StoreError} (he : l.contains id endpoint = .error e) :
    l'.contains id endpoint = .error e := by
  cases l <;> cases l'
  · cases he
  · exact h.elim
  · exact h.elim
  · next t t' =>
    dsimp only [contains] at he ⊢
    cases hf : Table.find tableName t [id, endpoint] with
    | ok u => rw [hf] at he; cases he
    | error e' =>
      rw [hf] at he
      rw [Table.find_error h hf]
      exact he

theorem append_table {t : Option (Table LogEntry)} (h : (table t).append new = .ok l') :
    ∃ t', Table.insertAll tableName (· == ·) (fun e => [e.messageId, e.endpoint]) t new = .ok t' ∧
      l' = .table t' := by
  dsimp only [append] at h
  cases hi : Table.insertAll tableName (· == ·) (fun e => [e.messageId, e.endpoint]) t new with
  | error e => rw [hi] at h; cases h
  | ok t' => rw [hi] at h; cases h; exact ⟨t', rfl, rfl⟩

theorem append_kin (h : l.append new = .ok l') : Kin l l' := by
  cases l with
  | memory es => cases h; trivial
  | table t =>
    obtain ⟨t', hi, rfl⟩ := append_table h
    exact Table.insertAll_isSome hi

/-- Only a log that answers for the messages of all entries takes them. -/
theorem append_answers (h : l.append new = .ok l') : ∀ e ∈ new, l.Answers e.messageId e.endpoint := by
  intro e he
  cases l with
  | memory es => exact ⟨_, rfl⟩
  | table t =>
    obtain ⟨t', hi, -⟩ := append_table h
    exact answers_table.mpr (Table.insertAll_find hi e he)

/-- **An append adds its entries to what the log answers**, and nothing else. -/
theorem append_contains (h : l.append new = .ok l') (id endpoint : String) :
    l'.contains id endpoint = (l.contains id endpoint).map (· || new.contains ⟨id, endpoint⟩) := by
  cases hl : l.contains id endpoint with
  | error e => exact (append_kin h).refuses hl
  | ok b =>
    obtain ⟨b', hb'⟩ := (append_kin h).answers ⟨b, hl⟩
    rw [hb']
    refine congrArg Except.ok (Bool.eq_iff_iff.mpr ?_)
    rw [contains_iff hb', append_items h, LogEntries.mem_append, Bool.or_eq_true, contains_iff hl,
      List.contains_iff_mem]

end InboundLog

/-! ## The chunk store -/

namespace Chunks

theorem ofMessage_cleanup (cs : List Chunk) (ids : List String) (id : String) :
    ofMessage (cleanup cs ids) id = if ids.contains id then [] else ofMessage cs id := by
  unfold ofMessage cleanup
  rw [List.filter_filter]
  split
  · next h =>
    refine List.filter_eq_nil_iff.mpr fun c _ hc => ?_
    rw [Bool.and_eq_true, beq_iff_eq] at hc
    obtain ⟨rfl, hn⟩ := hc
    rw [h] at hn
    cases hn
  · next h =>
    refine List.filter_congr fun c _ => ?_
    by_cases hc : c.messageId = id
    · subst hc
      rw [Bool.eq_false_iff.mpr h]
      simp
    · simp [hc]

theorem ofMessage_stored (cs new : List Chunk) (id : String) :
    ofMessage (store cs new) id = store (ofMessage cs id) (ofMessage new id) :=
  store_filter (fun _ _ h => by rw [h]) cs new

end Chunks

namespace ChunkStore

variable {c c' : ChunkStore} {ids : List String} {new : List Chunk} {id : String}

/-- Two chunk stores in one engine, both set up or neither. -/
def Kin : ChunkStore → ChunkStore → Prop
  | .memory _, .memory _ => True
  | .table t, .table t' => t'.isSome = t.isSome
  | _, _ => False

theorem Kin.answers (h : Kin c c') (ha : c.Answers id) : c'.Answers id := by
  cases c <;> cases c'
  · exact ⟨_, rfl⟩
  · exact h.elim
  · exact h.elim
  · obtain ⟨hid, ht⟩ := answers_table.mp ha
    refine answers_table.mpr ⟨hid, ?_⟩
    rw [← Option.isSome_iff_exists] at ht ⊢
    exact h.trans ht

theorem Kin.refuses (h : Kin c c') {e : StoreError} (he : c.get id = .error e) :
    c'.get id = .error e := by
  cases c <;> cases c'
  · cases he
  · exact h.elim
  · exact h.elim
  · next t t' =>
    dsimp only [get] at he ⊢
    cases hf : Table.find tableName t [id] with
    | ok u => rw [hf] at he; cases he
    | error e' =>
      rw [hf] at he
      rw [Table.find_error h hf]
      exact he

/-- What a change makes of the chunks of a message it makes of the answer about it. -/
theorem Kin.get (h : Kin c c') {f : List Chunk → List Chunk}
    (hf : Chunks.ofMessage c'.items id = f (Chunks.ofMessage c.items id)) :
    c'.get id = (c.get id).map f := by
  cases hc : c.get id with
  | error e => exact h.refuses hc
  | ok cs =>
    obtain ⟨cs', hc'⟩ := h.answers ⟨cs, hc⟩
    rw [hc']
    refine congrArg Except.ok ?_
    rw [get_items hc', get_items hc, hf]

theorem cleanup_table {t : Option (Table ChunkRow)} (h : (table t).cleanup ids = .ok c') :
    (∀ id ∈ ids, (table t).Answers id) ∧ ∃ t', c' = .table t' ∧ t'.isSome = t.isSome := by
  dsimp only [cleanup] at h
  split at h
  · next he =>
    cases h
    rw [List.isEmpty_iff.mp he]
    exact ⟨fun _ hid => (by cases hid), t, rfl, rfl⟩
  · cases hf : Table.find tableName t ids with
    | error e => rw [hf] at h; cases h
    | ok u =>
      rw [hf] at h
      cases h
      obtain ⟨hall, rfl⟩ := Table.find_ok_iff.mp hf
      exact ⟨fun id hid => answers_table.mpr ⟨List.all_eq_true.mp hall id hid, u, rfl⟩, _, rfl, rfl⟩

theorem store_table {t : Option (Table ChunkRow)} (h : (table t).store new = .ok c') :
    (∀ d ∈ new, (table t).Answers d.messageId) ∧ ∃ t', c' = .table t' ∧ t'.isSome = t.isSome := by
  dsimp only [store] at h
  cases hi : Table.insertAll tableName ChunkRow.sameKey (fun r => [r.messageId]) t
      (new.map ChunkRow.ofChunk) with
  | error e => rw [hi] at h; cases h
  | ok t' =>
    rw [hi] at h
    cases h
    refine ⟨fun d hd => ?_, t', rfl, Table.insertAll_isSome hi⟩
    obtain ⟨hall, ht⟩ := Table.insertAll_find hi _ (List.mem_map_of_mem hd)
    change [d.messageId].all Table.canHold = true at hall
    exact answers_table.mpr ⟨by simpa using hall, ht⟩

/-- Only a store that answers for every one of the ids cleans them up. -/
theorem cleanup_answers (h : c.cleanup ids = .ok c') : ∀ id ∈ ids, c.Answers id := by
  cases c with
  | memory cs => exact fun _ _ => ⟨_, rfl⟩
  | table t => exact (cleanup_table h).1

/-- Only a store that answers for the messages of all chunks takes them. -/
theorem store_answers (h : c.store new = .ok c') : ∀ d ∈ new, c.Answers d.messageId := by
  cases c with
  | memory cs => exact fun _ _ => ⟨_, rfl⟩
  | table t => exact (store_table h).1

theorem cleanup_kin (h : c.cleanup ids = .ok c') : Kin c c' := by
  cases c with
  | memory cs => cases h; trivial
  | table t =>
    obtain ⟨-, t', rfl, ht'⟩ := cleanup_table h
    exact ht'

theorem store_kin (h : c.store new = .ok c') : Kin c c' := by
  cases c with
  | memory cs => cases h; trivial
  | table t =>
    obtain ⟨-, t', rfl, ht'⟩ := store_table h
    exact ht'

/-- **A clean-up takes its sets out of what the store answers**, and nothing else. -/
theorem cleanup_get (h : c.cleanup ids = .ok c') (id : String) :
    c'.get id = (c.get id).map fun cs => if ids.contains id then [] else cs := by
  refine (cleanup_kin h).get ?_
  rw [cleanup_items h]
  exact Chunks.ofMessage_cleanup _ _ _

/-- **Storing chunks adds them to the sets they belong to**, and to no others. -/
theorem store_get (h : c.store new = .ok c') (id : String) :
    c'.get id = (c.get id).map fun cs => Chunks.store cs (Chunks.ofMessage new id) := by
  refine (store_kin h).get ?_
  rw [store_items h]
  exact Chunks.ofMessage_stored _ _ _

end ChunkStore

end Relay
