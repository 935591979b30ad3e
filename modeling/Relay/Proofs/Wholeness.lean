import Relay.Proofs.Assembly
/-!
# When a set of chunks is whole

A session joins a set once as many of its chunks are there as the first of them says there are.
`Gathering` is a session over a store with the envelopes whose chunks wait in it; sessions are
committed or rolled back one after the other. `Parks` says that the chunks shown are those of the
waiting envelopes, that no index is there twice, and that no set is full.

Results:
- `aggregate_whole`: what a chunk makes of the envelopes that wait. A payload that comes out joins
  as many contents as the first chunk of the set says, in the order of their indexes, which are
  all different; where none lies beyond that number they are all the indexes there are.
- `aggregate_whole_gap`: each index is checked against the number beside it and not against that
  of the set, so that sets come out with an index missing where these numbers differ.
-/
namespace Relay

variable {κ : Type}

/-! ## Envelopes with chunks -/

/-- An envelope with a chunk, and the position that its headers give. -/
structure Piece where
  envelope : RawEnvelope
  position : ChunkHeaders
  read : ChunkHeaders.read envelope.headers = .ok (some position)

namespace Piece

def id (p : Piece) : String := p.envelope.messageId

def index (p : Piece) : UInt32 := p.position.index

def content (p : Piece) : Bytes := p.envelope.payload

/-- The chunk as it is parked in a set of so many. -/
def chunk (count : UInt32) (p : Piece) : Chunk := ⟨p.id, p.index, count, p.content⟩

/-- A position lies below the number beside it. -/
theorem index_lt (p : Piece) : p.index < p.position.count := by
  have h := p.read
  unfold ChunkHeaders.read at h
  split at h
  · cases h
  · cases h
  · split at h
    · cases h
    · cases h
    · split at h
      · cases h
      · next hlt =>
        rw [Except.ok.injEq, Option.some.injEq] at h
        unfold index
        rw [← h]
        exact UInt32.not_le.mp hlt

end Piece

namespace Pieces

/-- The envelopes of a message, in order of arrival. -/
def ofMessage (ps : List Piece) (id : String) : List Piece := ps.filter fun p => p.id == id

/-- How many chunks the first of a set says there are. -/
def count : List Piece → UInt32
  | [] => 0
  | p :: _ => p.position.count

/-- The envelopes of a set in the order of their indexes. -/
def inOrder (ps : List Piece) : List Piece := ps.mergeSort fun p q => p.index ≤ q.index

/-- The chunks of a set as they are parked. -/
def chunks (ps : List Piece) : List Chunk := ps.map (Piece.chunk (count ps))

theorem ofMessage_append (ps qs : List Piece) (id : String) :
    ofMessage (ps ++ qs) id = ofMessage ps id ++ ofMessage qs id := List.filter_append ps qs

theorem ofMessage_of_eq {p : Piece} {id : String} (h : p.id = id) : ofMessage [p] id = [p] := by
  unfold ofMessage
  rw [List.filter_cons_of_pos (by simpa using h), List.filter_nil]

theorem ofMessage_of_ne {p : Piece} {id : String} (h : p.id ≠ id) : ofMessage [p] id = [] := by
  unfold ofMessage
  rw [List.filter_cons_of_neg (by simpa using h), List.filter_nil]

/-- A further chunk of a set does not change how many there are said to be. -/
theorem count_append {ps : List Piece} (h : ps ≠ []) (p : Piece) : count (ps ++ [p]) = count ps := by
  cases ps with
  | nil => exact absurd rfl h
  | cons q qs => rfl

theorem chunks_append (ps : List Piece) (p : Piece) :
    chunks (ps ++ [p]) = chunks ps ++ [p.chunk (count (ps ++ [p]))] := by
  cases ps with
  | nil => rfl
  | cons q qs =>
    unfold chunks
    rw [count_append (by simp), List.map_append]
    rfl

theorem indexes_chunks (ps : List Piece) : (chunks ps).map Chunk.index = ps.map Piece.index := by
  unfold chunks
  rw [List.map_map]
  rfl

theorem perm_inOrder (ps : List Piece) : (inOrder ps).Perm ps := List.mergeSort_perm _ _

end Pieces

/-! ## Joining a set -/

theorem Pieces.join_chunks (ps : List Piece) :
    join (chunks ps) = (inOrder ps).flatMap Piece.content := by
  unfold join chunks inOrder
  rw [← List.map_mergeSort (r := fun p q : Piece => decide (p.index ≤ q.index)) fun _ _ _ _ => rfl,
    List.flatMap_map]
  rfl

/-- As many different indexes as there can be are all of them. -/
theorem Pieces.indexes_inOrder {ps : List Piece} {n : Nat} (hn : (ps.map Piece.index).Nodup)
    (hlen : ps.length = n) (hlt : ∀ p ∈ ps, p.index.toNat < n) :
    (inOrder ps).map (fun p => p.index.toNat) = List.range n := by
  have hperm := perm_inOrder ps
  have hnodup : ((inOrder ps).map fun p => p.index.toNat).Nodup := by
    have hmap : ((inOrder ps).map Piece.index).Nodup := (hperm.map _).nodup_iff.mpr hn
    have hinj : Function.Injective UInt32.toNat := fun _ _ h => UInt32.toNat_inj.mp h
    have hnat := hmap.map hinj
    rwa [List.map_map] at hnat
  have hsorted : ((inOrder ps).map fun p => p.index.toNat).Pairwise (· ≤ ·) := by
    rw [List.pairwise_map]
    have hle : (inOrder ps).Pairwise fun p q => decide (p.index ≤ q.index) = true :=
      List.pairwise_mergeSort (fun a b c => index_trans a.index b.index c.index)
        (fun a b => index_total a.index b.index) ps
    refine hle.imp fun {a b} h => ?_
    rwa [decide_eq_true_iff, UInt32.le_iff_toNat_le] at h
  have hsub : (inOrder ps).map (fun p => p.index.toNat) ⊆ List.range n := by
    intro i hi
    obtain ⟨p, hp, rfl⟩ := List.mem_map.mp hi
    exact List.mem_range.mpr (hlt p (hperm.mem_iff.mp hp))
  have hall : ((inOrder ps).map fun p => p.index.toNat).Perm (List.range n) := by
    refine (List.subperm_of_subset hnodup hsub).perm_of_length_le ?_
    rw [List.length_map, List.length_range, hperm.length_eq]
    exact Nat.le_of_eq hlen.symm
  refine hall.eq_of_pairwise (fun a b _ _ hab hba => Nat.le_antisymm hab hba) hsorted ?_
  exact List.pairwise_lt_range.imp fun h => Nat.le_of_lt h

/-! ## What waits -/

/-- The chunks are those of the envelopes; no two of a message have one index, and of every message
some are missing. -/
structure Parks (cs : List Chunk) (ps : List Piece) : Prop where
  perm : ∀ id, (Chunks.ofMessage cs id).Perm (Pieces.chunks (Pieces.ofMessage ps id))
  nodup : ∀ id, ((Pieces.ofMessage ps id).map Piece.index).Nodup
  missing : ∀ id, Pieces.ofMessage ps id ≠ [] →
    (Pieces.ofMessage ps id).length < (Pieces.count (Pieces.ofMessage ps id)).toNat

namespace Parks

variable {cs cs' : List Chunk} {ps : List Piece}

theorem nil : Parks [] [] := ⟨fun _ => .refl _, fun _ => List.nodup_nil, fun _ h => absurd rfl h⟩

theorem nodup_chunks (h : Parks cs ps) (id : String) :
    ((Chunks.ofMessage cs id).map Chunk.index).Nodup := by
  rw [((h.perm id).map Chunk.index).nodup_iff, Pieces.indexes_chunks]
  exact h.nodup id

theorem congr (h : Parks cs ps) (he : ∀ id, Chunks.ofMessage cs' id = Chunks.ofMessage cs id) :
    Parks cs' ps :=
  ⟨fun id => by rw [he id]; exact h.perm id, h.nodup, h.missing⟩

/-- A chunk that is parked joins its set, in which some are missing still. -/
theorem add (h : Parks cs ps) {p : Piece}
    (hnew : p.index ∉ (Pieces.ofMessage ps p.id).map Piece.index)
    (hlt : (Pieces.ofMessage ps p.id).length + 1 <
      (Pieces.count (Pieces.ofMessage ps p.id ++ [p])).toNat) :
    Parks (cs ++ [p.chunk (Pieces.count (Pieces.ofMessage ps p.id ++ [p]))]) (ps ++ [p]) := by
  have hsame : Pieces.ofMessage (ps ++ [p]) p.id = Pieces.ofMessage ps p.id ++ [p] := by
    rw [Pieces.ofMessage_append, Pieces.ofMessage_of_eq rfl]
  have hother : ∀ id, p.id ≠ id → Pieces.ofMessage (ps ++ [p]) id = Pieces.ofMessage ps id := by
    intro id hid
    rw [Pieces.ofMessage_append, Pieces.ofMessage_of_ne hid, List.append_nil]
  generalize hcount : Pieces.count (Pieces.ofMessage ps p.id ++ [p]) = n at hlt ⊢
  have hone : Chunks.ofMessage [p.chunk n] p.id = [p.chunk n] := Chunks.ofMessage_of_eq rfl
  have hnone : ∀ id, p.id ≠ id → Chunks.ofMessage [p.chunk n] id = [] :=
    fun id hid => Chunks.ofMessage_of_ne hid
  refine ⟨fun id => ?_, fun id => ?_, fun id hne => ?_⟩
  · rw [Chunks.ofMessage_append]
    by_cases hid : p.id = id
    · subst hid
      rw [hone, hsame, Pieces.chunks_append, hcount]
      exact (h.perm _).append_right _
    · rw [hnone id hid, List.append_nil, hother id hid]
      exact h.perm id
  · by_cases hid : p.id = id
    · subst hid
      rw [hsame, List.map_append, List.nodup_append']
      refine ⟨h.nodup _, List.nodup_singleton _, ?_⟩
      intro i hi hi'
      rw [List.mem_singleton.mp hi'] at hi
      exact hnew hi
    · rw [hother id hid]
      exact h.nodup id
  · by_cases hid : p.id = id
    · subst hid
      rw [hsame, List.length_append, List.length_singleton, hcount]
      exact hlt
    · rw [hother id hid] at hne ⊢
      exact h.missing id hne

/-- The envelopes of a message are gone with its chunks. -/
theorem drop (h : Parks cs ps) (id : String) :
    Parks (cs.filter fun c => c.messageId != id) (ps.filter fun p => p.id != id) := by
  have hchunks : ∀ other, Chunks.ofMessage (cs.filter fun c => c.messageId != id) other =
      if other = id then [] else Chunks.ofMessage cs other := by
    intro other
    unfold Chunks.ofMessage
    rw [List.filter_filter]
    split
    · next he => simp [he]
    · next he => exact List.filter_congr fun c _ => by by_cases hc : c.messageId = other <;> simp [hc, he]
  have hpieces : ∀ other, Pieces.ofMessage (ps.filter fun p => p.id != id) other =
      if other = id then [] else Pieces.ofMessage ps other := by
    intro other
    unfold Pieces.ofMessage
    rw [List.filter_filter]
    split
    · next he => simp [he]
    · next he => exact List.filter_congr fun p _ => by by_cases hp : p.id = other <;> simp [hp, he]
  refine ⟨fun other => ?_, fun other => ?_, fun other hne => ?_⟩
  · rw [hchunks, hpieces]
    split
    · exact .refl _
    · exact h.perm other
  · rw [hpieces]
    split
    · exact List.nodup_nil
    · exact h.nodup other
  · rw [hpieces] at hne ⊢
    split at hne
    · exact absurd rfl hne
    · next he =>
      rw [if_neg he]
      exact h.missing other hne

end Parks

/-! ## Sessions one after the other -/

/-- A session over the store of a world, with the envelopes whose chunks wait. -/
structure Gathering (κ : Type) where
  world : World κ
  session : ChunkSession := {}
  /-- Those that waited when the last session was committed. -/
  saved : List Piece := []
  /-- Those that wait now, in order of arrival. -/
  waiting : List Piece := []

namespace Gathering

/-- Those that wait of the message of an envelope, and the envelope. -/
def set (g : Gathering κ) (p : Piece) : List Piece := Pieces.ofMessage g.waiting p.id ++ [p]

/-- One that waits has the message and the index of the envelope. -/
def Repeats (g : Gathering κ) (p : Piece) : Prop :=
  p.index ∈ (Pieces.ofMessage g.waiting p.id).map Piece.index

instance (g : Gathering κ) (p : Piece) : Decidable (g.Repeats p) :=
  inferInstanceAs (Decidable (_ ∈ _))

/-- Those that wait once an envelope was taken in: the payload that came out was theirs, or the
envelope waits with them unless it repeats one. -/
def after (g : Gathering κ) (p : Piece) : Option Bytes → List Piece
  | some _ => g.waiting.filter fun q => q.id != p.id
  | none => if g.Repeats p then g.waiting else g.waiting ++ [p]

/-- Beside the chunks there are of its set an envelope finds the number that the first one says. -/
theorem expected_eq {g : Gathering κ} {p : Piece} {existing : List Chunk}
    (hp : existing.Perm (Pieces.chunks (Pieces.ofMessage g.waiting p.id))) :
    ChunkSession.expected existing p.position = Pieces.count (g.set p) := by
  cases existing with
  | nil =>
    have hnone : Pieces.ofMessage g.waiting p.id = [] := List.map_eq_nil_iff.mp hp.nil_eq.symm
    unfold set
    rw [hnone]
    rfl
  | cons c cs =>
    obtain ⟨q, hq, hc⟩ := List.mem_map.mp (hp.mem_iff.mp List.mem_cons_self)
    unfold set
    rw [Pieces.count_append (List.ne_nil_of_mem hq)]
    exact (congrArg Chunk.count hc).symm

/-- The session takes in an envelope. -/
def take (g : Gathering κ) (p : Piece) : Op κ ChunkError (Option Bytes × ChunkSession) :=
  g.session.aggregate p.id p.envelope.headers p.content

/-- One step of the sessions over a store. -/
inductive Step : Gathering κ → Gathering κ → Prop
  | took {g : Gathering κ} {p : Piece} {joined : Option Bytes} {session : ChunkSession}
    {world : World κ} (h : g.take p g.world = .ok (joined, session) world) :
    Step g { g with world, session, waiting := g.after p joined }
  | refused {g : Gathering κ} {p : Piece} {e : ChunkError} {world : World κ}
    (h : g.take p g.world = .error e world) : Step g { g with world }
  | committed {g : Gathering κ} {session : ChunkSession} {world : World κ}
    (h : g.session.commit g.world = .ok session world) :
    Step g { g with world, session, saved := g.waiting }
  | rolledBack (g : Gathering κ) : Step g { g with session := {}, waiting := g.saved }

/-- Any number of steps. -/
abbrev Steps : Gathering κ → Gathering κ → Prop := Relation.ReflTransGen Step

/-- What the session shows are the chunks of the envelopes that wait, and what the store holds those
of the envelopes that waited at the last commit. -/
structure Keeping (g : Gathering κ) : Prop where
  waiting : Parks (g.session.view g.world.chunks) g.waiting
  saved : Parks g.world.chunks.items g.saved

theorem keeping_start {world : World κ} (h : world.chunks.items = []) :
    Keeping (⟨world, {}, [], []⟩ : Gathering κ) := by
  refine ⟨Parks.nil.congr fun id => ?_, Parks.nil.congr fun id => ?_⟩
  · exact (ChunkSession.parked_empty _ _).trans (by rw [h])
  · rw [h]

namespace Keeping

variable {g : Gathering κ} {p : Piece}

theorem set_nodup (h : Keeping g) (hnew : ¬ g.Repeats p) : ((g.set p).map Piece.index).Nodup := by
  unfold set
  rw [List.map_append, List.nodup_append']
  refine ⟨h.waiting.nodup p.id, List.nodup_singleton _, fun i hi hi' => ?_⟩
  rw [List.mem_singleton.mp hi'] at hi
  exact hnew hi

/-- A set that is not short of chunks has as many as its first one says. -/
theorem set_full (h : Keeping g) (hlt : ¬ (g.set p).length < (Pieces.count (g.set p)).toNat) :
    (g.set p).length = (Pieces.count (g.set p)).toNat := by
  have hmissing := h.waiting.missing p.id
  unfold set at *
  by_cases hnone : Pieces.ofMessage g.waiting p.id = []
  · have hpos := UInt32.lt_iff_toNat_lt.mp p.index_lt
    rw [hnone] at hlt ⊢
    change ¬ 1 < p.position.count.toNat at hlt
    change 1 = p.position.count.toNat
    omega
  · have hfew := hmissing hnone
    rw [Pieces.count_append hnone] at hlt ⊢
    rw [List.length_append, List.length_singleton] at hlt ⊢
    omega

/-- What taking in an envelope comes to, beside those that wait. -/
theorem take_ok (h : Keeping g) {joined : Option Bytes} {session : ChunkSession} {world : World κ}
    (ht : g.take p g.world = .ok (joined, session) world) :
    (g.Repeats p ∧ joined = none ∧ session = g.session) ∨
    (¬ g.Repeats p ∧ (g.set p).length < (Pieces.count (g.set p)).toNat ∧ joined = none ∧
      session = g.session.store (p.chunk (Pieces.count (g.set p)))) ∨
    (¬ g.Repeats p ∧ (g.set p).length = (Pieces.count (g.set p)).toNat ∧
      joined = some (join (Pieces.chunks (g.set p))) ∧ session = g.session.cleanup p.id) := by
  obtain ⟨position, existing, hread, hsees, hr⟩ := ChunkSession.aggregate_ok ht
  rw [p.read, Except.ok.injEq, Option.some.injEq] at hread
  subst hread
  have hperm : existing.Perm (Pieces.chunks (Pieces.ofMessage g.waiting p.id)) :=
    ChunkSession.sees_eq hsees ▸ h.waiting.perm p.id
  have hany : existing.any (fun c => c.index == p.position.index) = true ↔ g.Repeats p := by
    unfold Repeats
    rw [List.any_eq_true, ← Pieces.indexes_chunks, ← (hperm.map Chunk.index).mem_iff, List.mem_map]
    simp only [beq_iff_eq]
    rfl
  have hlen : existing.length + 1 = (g.set p).length := by
    unfold set Pieces.chunks at *
    rw [hperm.length_eq, List.length_map, List.length_append, List.length_singleton]
  unfold ChunkSession.take at hr
  rw [ChunkSession.arrive_eq, expected_eq hperm, hlen] at hr
  by_cases hrep : g.Repeats p
  · rw [if_pos (hany.mpr hrep)] at hr
    cases hr
    exact Or.inl ⟨hrep, rfl, rfl⟩
  rw [if_neg (mt hany.mp hrep)] at hr
  refine Or.inr ?_
  by_cases hlt : (g.set p).length < (Pieces.count (g.set p)).toNat
  · rw [if_pos hlt] at hr
    cases hr
    exact Or.inl ⟨hrep, hlt, rfl, rfl⟩
  · rw [if_neg hlt] at hr
    cases hr
    refine Or.inr ⟨hrep, h.set_full hlt, congrArg some ?_, rfl⟩
    refine join_of_perm ?_ ?_
    · rw [Pieces.indexes_chunks]
      exact h.set_nodup hrep
    · unfold set at *
      rw [Pieces.chunks_append]
      exact hperm.append_right _

theorem took (h : Keeping g) {joined : Option Bytes} {session : ChunkSession} {world : World κ}
    (ht : g.take p g.world = .ok (joined, session) world) :
    Keeping { g with world, session, waiting := g.after p joined } := by
  have hworld : world.chunks = g.world.chunks :=
    ((ChunkSession.aggregate_alike g.session p.id p.envelope.headers p.content).ok ht).chunks
  refine ⟨?_, by rw [hworld]; exact h.saved⟩
  rw [hworld]
  change Parks (session.view g.world.chunks) (g.after p joined)
  unfold after
  rcases h.take_ok ht with ⟨hrep, rfl, rfl⟩ | ⟨hrep, hlt, rfl, rfl⟩ | ⟨-, -, rfl, rfl⟩
  · dsimp only
    rw [if_pos hrep]
    exact h.waiting
  · dsimp only
    rw [if_neg hrep, ChunkSession.view_store]
    unfold set at hlt
    rw [List.length_append, List.length_singleton] at hlt
    exact h.waiting.add hrep hlt
  · rw [ChunkSession.view_cleanup]
    exact h.waiting.drop p.id

theorem committed (h : Keeping g) {session : ChunkSession} {world : World κ}
    (hc : g.session.commit g.world = .ok session world) :
    Keeping { g with world, session, saved := g.waiting } := by
  obtain ⟨chunks, happlied, hw⟩ := ChunkSession.commit_ok hc
  have hempty : session = {} := ChunkSession.commit_empty hc
  have hitems : Parks world.chunks.items g.waiting := by
    refine h.waiting.congr fun id => ?_
    rw [hw.chunks]
    change Chunks.ofMessage chunks.items id = _
    rw [ChunkSession.applied_items happlied]
    exact Chunks.ofMessage_store (h.waiting.nodup_chunks id)
  refine ⟨?_, hitems⟩
  rw [hempty]
  exact hitems.congr fun id => ChunkSession.parked_empty _ _

/-- Every step keeps what is shown and what is held in line with the envelopes that wait. -/
theorem step (h : Keeping g) {g' : Gathering κ} (hs : Step g g') : Keeping g' := by
  cases hs with
  | took ht => exact h.took ht
  | refused ht =>
    have hw := (ChunkSession.aggregate_alike g.session _ _ _).error ht
    exact ⟨by rw [hw.chunks]; exact h.waiting, by rw [hw.chunks]; exact h.saved⟩
  | committed hc => exact h.committed hc
  | rolledBack => exact ⟨h.saved.congr fun id => ChunkSession.parked_empty _ _, h.saved⟩

theorem steps (h : Keeping g) {g' : Gathering κ} (hs : Steps g g') : Keeping g' := by
  induction hs with
  | refl => exact h
  | tail _ hs ih => exact ih.step hs

end Keeping

/-- **When a set is whole.** Whatever envelopes with chunks are taken in, in sessions that are
committed or rolled back one after the other over a store that was empty: nothing comes out for one
whose index is there already, nor while fewer chunks are there than the first of the set says; with
as many there comes out the join of their contents in the order of their indexes, which are all
different, and all those below that number unless one lies beyond it. -/
theorem aggregate_whole {world : World κ} (he : world.chunks.items = []) {g : Gathering κ}
    (hg : Steps ⟨world, {}, [], []⟩ g) (p : Piece) {joined : Option Bytes} {session : ChunkSession}
    {world' : World κ} (ht : g.take p g.world = .ok (joined, session) world') :
    let set := g.set p
    let count := (Pieces.count set).toNat
    match joined with
    | none => g.Repeats p ∨ set.length < count
    | some payload => set.length = count ∧ (set.map Piece.index).Nodup ∧
        payload = (Pieces.inOrder set).flatMap Piece.content ∧
        ((∀ q ∈ set, q.index.toNat < count) →
          (Pieces.inOrder set).map (fun q => q.index.toNat) = List.range count) := by
  have h := (keeping_start he).steps hg
  rcases h.take_ok ht with ⟨hrep, rfl, -⟩ | ⟨-, hlt, rfl, -⟩ | ⟨hrep, hfull, rfl, -⟩
  · exact Or.inl hrep
  · exact Or.inr hlt
  · have hn := h.set_nodup hrep
    exact ⟨hfull, hn, Pieces.join_chunks _, Pieces.indexes_inOrder hn hfull⟩

/-! ### Chunks of one message with different counts -/

/-- An envelope with a chunk of one message, under the index and the count as they are written. -/
def chunkEnvelope (content : Bytes) (index count : String) : RawEnvelope :=
  ⟨content, ⟨[(Headers.messageId, "a"), (Headers.chunkIndex, index), (Headers.chunksCount, count)]⟩,
    ⟨"orders", none, []⟩, none, "a"⟩

def firstOfTwo : Piece := ⟨chunkEnvelope [65] "0" "2", ⟨0, 2⟩, rfl⟩

def lastOfTwo : Piece := ⟨chunkEnvelope [66] "1" "2", ⟨1, 2⟩, rfl⟩

def lastOfSix : Piece := ⟨chunkEnvelope [70] "5" "6", ⟨5, 6⟩, rfl⟩

/-- An empty store in memory. -/
def nothingYet : Gathering Unit := ⟨.create .memory, {}, [], []⟩

/-- A store in memory in which the chunk waits. -/
def afterOne (p : Piece) : Gathering Unit :=
  ⟨.create .memory, ⟨[p.chunk p.position.count], []⟩, [], [p]⟩

/-- Nothing comes out for either of two chunks alone. -/
theorem take_one {p : Piece} (hp : p = firstOfTwo ∨ p = lastOfTwo) :
    nothingYet.take p nothingYet.world = .ok (none, (afterOne p).session) nothingYet.world := by
  rcases hp with rfl | rfl <;> rfl

theorem steps_afterOne {p : Piece} (hp : p = firstOfTwo ∨ p = lastOfTwo) :
    Steps nothingYet (afterOne p) := .single (.took (take_one hp))

/-- Two chunks that come in the wrong order are joined in the right one. -/
theorem aggregate_whole_swapped :
    ∃ payload session world, (afterOne lastOfTwo).take firstOfTwo (.create .memory) =
        .ok (some payload, session) world ∧
      (Pieces.inOrder [lastOfTwo, firstOfTwo]).map (fun q => q.index.toNat) = [0, 1] ∧
      payload = (Pieces.inOrder [lastOfTwo, firstOfTwo]).flatMap Piece.content := by
  refine ⟨_, _, _, rfl, ?_⟩
  obtain ⟨-, -, hpayload, hall⟩ := aggregate_whole rfl (steps_afterOne (Or.inr rfl)) firstOfTwo rfl
  exact ⟨hall (by decide), hpayload⟩

/-- The last of six chunks completes a set of two, in which the second one is missing. -/
theorem aggregate_whole_gap :
    Steps nothingYet (afterOne firstOfTwo) ∧
      (∃ session world, (afterOne firstOfTwo).take lastOfSix (.create .memory) =
        .ok (some [65, 70], session) world) ∧
      Pieces.count ((afterOne firstOfTwo).set lastOfSix) = 2 ∧
      ((afterOne firstOfTwo).set lastOfSix).map Piece.index = [0, 5] := by
  refine ⟨steps_afterOne (Or.inl rfl), ?_, rfl, rfl⟩
  have hjoin : join [firstOfTwo.chunk 2, lastOfSix.chunk 2] = [65, 70] := by
    unfold join
    rw [List.mergeSort_of_pairwise (by decide)]
    rfl
  rw [← hjoin]
  exact ⟨_, _, rfl⟩

end Gathering

end Relay
