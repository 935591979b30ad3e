import Mathlib.Data.List.Nodup
import Relay.Chunk.Assembly
import Relay.Producer
import Relay.Proofs.Cutting
import Relay.Proofs.Headers
import Relay.Proofs.Numeral
/-!
# The chunks of a payload, joined again

`ChunkSet` lists the chunks of a payload by their index. Joining them in whatever order they have
come gives the payload (`ChunkSet.join_perm`); the headers of each read as its position and are
those of the message again once that is removed (`read_write`, `remove_write`). What goes out for
a payload is the payload or its chunks (`parcels_posted`).
-/
namespace Relay

/-! ## Positions in headers -/

namespace ChunkHeaders

open Headers

theorem get?_write (c : ChunkHeaders) (h : Headers) {name : String}
    (hi : sameName chunkIndex name = false) (hc : sameName chunksCount name = false) :
    (c.write h).get? name = h.get? name := by
  unfold write
  rw [get?_insert_of_ne _ _ hc, get?_insert_of_ne _ _ hi]

theorem read_none {h : Headers} (hi : h.get? chunkIndex = none) : read h = .ok none := by
  unfold read parse
  rw [hi]

/-- A position that was written is read. -/
theorem read_write {c : ChunkHeaders} (hc : c.index < c.count) (h : Headers) :
    read (c.write h) = .ok (some c) := by
  have hne : sameName chunksCount chunkIndex = false := by decide
  have hindex : parse (c.write h) chunkIndex = .ok (some c.index) := by
    unfold parse write
    rw [get?_insert_of_ne _ _ hne, get?_insert_self]
    dsimp only
    rw [Numeral.readUInt32_toString]
  have hcount : parse (c.write h) chunksCount = .ok (some c.count) := by
    unfold parse write
    rw [get?_insert_self]
    dsimp only
    rw [Numeral.readUInt32_toString]
  have hlt : ¬ c.count ≤ c.index := by
    rw [UInt32.le_iff_toNat_le]
    rw [UInt32.lt_iff_toNat_lt] at hc
    omega
  unfold read
  rw [hindex, hcount]
  dsimp only
  rw [if_neg hlt]

/-- What was written is removed without a trace. -/
theorem remove_write (c : ChunkHeaders) {h : Headers} (hi : h.get? chunkIndex = none)
    (hc : h.get? chunksCount = none) : remove (c.write h) = h := by
  have hi' : h.contains chunkIndex = false := get?_eq_none.mp hi
  have hc' : h.contains chunksCount = false := get?_eq_none.mp hc
  have hc'' : (h.insert chunkIndex (toString c.index.toNat)).contains chunksCount = false := by
    rw [← get?_eq_none, get?_insert_of_ne _ _ (by decide)]
    exact hc
  unfold remove write
  rw [insert_of_absent hc'', insert_of_absent hi', List.append_assoc, List.singleton_append,
    remove_append hi', remove_append hc', List.append_nil]

end ChunkHeaders

/-! ## Chunk sets -/

/-- The chunks that the payload of a message is cut into, by ascending index. -/
structure ChunkSet (id : String) (payload : Bytes) (all : List Chunk) : Prop where
  messageId : ∀ c ∈ all, c.messageId = id
  count : ∀ c ∈ all, c.count.toNat = all.length
  range : ∀ c ∈ all, c.index < c.count
  sorted : all.Pairwise fun a b => a.index < b.index
  content : all.flatMap Chunk.content = payload
  nonempty : all ≠ []

/-- Consecutive chunks of a message, the first of a given index. -/
def chunksFrom (id : String) (count : UInt32) (index : Nat) : List Bytes → List Chunk
  | [] => []
  | c :: cs => ⟨id, UInt32.ofNat index, count, c⟩ :: chunksFrom id count (index + 1) cs

section

variable {id : String} {count : UInt32} {index : Nat} {cs : List Bytes}

theorem length_chunksFrom : (chunksFrom id count index cs).length = cs.length := by
  induction cs generalizing index with
  | nil => rfl
  | cons c cs ih => exact congrArg (· + 1) ih

theorem content_chunksFrom : (chunksFrom id count index cs).flatMap Chunk.content = cs.flatten := by
  induction cs generalizing index with
  | nil => rfl
  | cons c cs ih =>
    rw [chunksFrom, List.flatMap_cons, ih]
    rfl

theorem mem_chunksFrom {c : Chunk} (h : c ∈ chunksFrom id count index cs)
    (hlt : index + cs.length < UInt32.size) :
    c.messageId = id ∧ c.count = count ∧ index ≤ c.index.toNat ∧
      c.index.toNat < index + cs.length := by
  induction cs generalizing index with
  | nil => cases h
  | cons d ds ih =>
    rw [List.length_cons] at hlt ⊢
    rcases List.mem_cons.mp h with rfl | h
    · have hn : (UInt32.ofNat index).toNat = index :=
        UInt32.toNat_ofNat_of_lt' (by unfold UInt32.size at hlt ⊢; omega)
      exact ⟨rfl, rfl, Nat.le_of_eq hn.symm, by rw [hn]; omega⟩
    · obtain ⟨hid, hcount, hle, hup⟩ := ih h (by omega)
      exact ⟨hid, hcount, by omega, by omega⟩

theorem sorted_chunksFrom (hlt : index + cs.length < UInt32.size) :
    (chunksFrom id count index cs).Pairwise fun a b => a.index < b.index := by
  induction cs generalizing index with
  | nil => exact List.Pairwise.nil
  | cons d ds ih =>
    rw [List.length_cons] at hlt
    refine List.Pairwise.cons (fun b hb => ?_) (ih (by omega))
    obtain ⟨-, -, hle, -⟩ := mem_chunksFrom hb (by omega)
    have hn : (UInt32.ofNat index).toNat = index :=
      UInt32.toNat_ofNat_of_lt' (by unfold UInt32.size at hlt ⊢; omega)
    rw [UInt32.lt_iff_toNat_lt, hn]
    omega

end

theorem chunkSet_of_pieces (id : String) {cs : List Bytes} (hne : cs ≠ [])
    (hlt : cs.length < UInt32.size) :
    ChunkSet id cs.flatten (chunksFrom id (UInt32.ofNat cs.length) 0 cs) := by
  have hmem : ∀ c ∈ chunksFrom id (UInt32.ofNat cs.length) 0 cs, c.messageId = id ∧
      c.count.toNat = cs.length ∧ c.index.toNat < cs.length := by
    intro c hc
    obtain ⟨hid, hcount, -, hup⟩ := mem_chunksFrom hc (by omega)
    rw [hcount]
    exact ⟨hid, UInt32.toNat_ofNat_of_lt' hlt, by omega⟩
  refine ⟨fun c hc => (hmem c hc).1, fun c hc => ?_, fun c hc => ?_, sorted_chunksFrom (by omega),
    content_chunksFrom, ?_⟩
  · rw [(hmem c hc).2.1, length_chunksFrom]
  · obtain ⟨-, hcount, hindex⟩ := hmem c hc
    rw [UInt32.lt_iff_toNat_lt, hcount]
    exact hindex
  · intro hnil
    rw [← List.length_eq_zero_iff, length_chunksFrom] at hnil
    exact hne (List.length_eq_zero_iff.mp hnil)

/-! ## Joining -/

theorem index_total (a b : UInt32) : (decide (a ≤ b) || decide (b ≤ a)) = true := by
  rw [Bool.or_eq_true, decide_eq_true_iff, decide_eq_true_iff, UInt32.le_iff_toNat_le,
    UInt32.le_iff_toNat_le]
  omega

theorem index_trans (a b c : UInt32) (h : decide (a ≤ b) = true) (h' : decide (b ≤ c) = true) :
    decide (a ≤ c) = true := by
  rw [decide_eq_true_iff, UInt32.le_iff_toNat_le] at *
  omega

/-- Chunks with different indexes are joined in the same way in whatever order they come. -/
theorem join_of_perm {cs ds : List Chunk} (hn : (ds.map Chunk.index).Nodup) (hp : cs.Perm ds) :
    join cs = join ds := by
  unfold join
  congr 1
  have htrans : ∀ a b c : Chunk, decide (a.index ≤ b.index) = true →
      decide (b.index ≤ c.index) = true → decide (a.index ≤ c.index) = true :=
    fun a b c => index_trans a.index b.index c.index
  have htotal : ∀ a b : Chunk, (decide (a.index ≤ b.index) || decide (b.index ≤ a.index)) = true :=
    fun a b => index_total a.index b.index
  have hperm := ((List.mergeSort_perm cs fun a b => decide (a.index ≤ b.index)).trans hp).trans
    (List.mergeSort_perm ds fun a b => decide (a.index ≤ b.index)).symm
  refine List.Perm.eq_of_pairwise ?_ (List.pairwise_mergeSort htrans htotal cs)
    (List.pairwise_mergeSort htrans htotal ds) hperm
  intro a b ha hb hab hba
  rw [decide_eq_true_iff, UInt32.le_iff_toNat_le] at hab hba
  have hindex : a.index = b.index := UInt32.toNat_inj.mp (by omega)
  exact List.inj_on_of_nodup_map hn ((List.mergeSort_perm cs _).trans hp |>.mem_iff.mp ha)
    ((List.mergeSort_perm ds _).mem_iff.mp hb) hindex

namespace ChunkSet

variable {id : String} {payload : Bytes} {all : List Chunk}

theorem nodup_index (h : ChunkSet id payload all) : (all.map Chunk.index).Nodup := by
  unfold List.Nodup
  rw [List.pairwise_map]
  refine h.sorted.imp fun hlt heq => ?_
  rw [heq, UInt32.lt_iff_toNat_lt] at hlt
  omega

theorem nodup (h : ChunkSet id payload all) : all.Nodup := h.nodup_index.of_map

/-- A chunk of the set is determined by its index. -/
theorem eq_of_index (h : ChunkSet id payload all) {a b : Chunk} (ha : a ∈ all) (hb : b ∈ all)
    (hab : a.index = b.index) : a = b :=
  List.inj_on_of_nodup_map h.nodup_index ha hb hab

/-- **Chunks are joined to the payload, whatever order they have come in.** -/
theorem join_perm (h : ChunkSet id payload all) {cs : List Chunk} (hp : cs.Perm all) :
    join cs = payload := by
  have hsorted : all.Pairwise fun a b => decide (a.index ≤ b.index) = true := by
    refine h.sorted.imp fun hlt => ?_
    rw [decide_eq_true_iff, UInt32.le_iff_toNat_le]
    rw [UInt32.lt_iff_toNat_lt] at hlt
    omega
  rw [join_of_perm h.nodup_index hp]
  unfold join
  rw [List.mergeSort_of_pairwise hsorted, h.content]

end ChunkSet

/-! ## What goes out -/

/-- A chunk as it goes out for a message with the headers. -/
def Chunk.parcel (h : Headers) (c : Chunk) : Bytes × Headers :=
  (c.content, (ChunkHeaders.mk c.index c.count).write h)

/-- What may go out for a payload under headers: itself, or its chunks. -/
inductive Posted (id : String) (payload : Bytes) (h : Headers) :
    List Chunk → List (Bytes × Headers) → Prop
  | whole : Posted id payload h [] [(payload, h)]
  | cut {all : List Chunk} (hall : ChunkSet id payload all) :
    Posted id payload h all (all.map (Chunk.parcel h))

theorem number_eq (id : String) (h : Headers) (count : UInt32) (index : Nat) (cs : List Bytes) :
    number h count index cs = (chunksFrom id count index cs).map (Chunk.parcel h) := by
  induction cs generalizing index with
  | nil => rfl
  | cons c cs ih =>
    rw [number, chunksFrom, List.map_cons, ih]
    rfl

/-- What goes out for a payload is the payload or its chunks. -/
theorem parcels_posted (id : String) (endpoint : Endpoint) (payload : Bytes) (h : Headers)
    (hcount : (parcels endpoint payload h).length < UInt32.size) :
    ∃ all, Posted id payload h all (parcels endpoint payload h) := by
  unfold parcels at hcount ⊢
  split
  · exact ⟨[], .whole⟩
  · next size hsize =>
    rw [hsize] at hcount
    dsimp only at hcount ⊢
    split
    · next hlong =>
      rw [if_pos hlong, number_eq id, List.length_map, length_chunksFrom] at hcount
      rw [number_eq id]
      refine ⟨_, .cut ?_⟩
      have hset := chunkSet_of_pieces id (split_ne_nil payload size) hcount
      rwa [split_flatten] at hset
    · exact ⟨[], .whole⟩

end Relay
