import Relay.Proofs.World
import Relay.Transaction
/-!
# Sessions and their commit

What a session answers is a function of what it buffers and of what is committed: `sees`. What
its commit makes of the committed content is another: `append` of the pending entries for the
log, `applied` for the chunks. A commit of a chunk session that fails may have cleaned up
already (`commit_error`).
-/
namespace Relay

open World (Alike)

variable {κ : Type}

/-! ## The inbound log -/

namespace LogSession

/-- What a session over a log answers about a message. -/
def sees (s : LogSession) (l : InboundLog) (id endpoint : String) : Except StoreError Bool :=
  if s.pending.contains ⟨id, endpoint⟩ then .ok true else l.contains id endpoint

theorem contains_alike (s : LogSession) (id endpoint : String) :
    Within Alike (s.contains id endpoint : Op κ StoreError Bool) := by
  unfold contains
  split
  · exact within_pure _
  · exact World.logContains_alike _ _

theorem contains_ok {s : LogSession} {id endpoint : String} {b : Bool} {w w' : World κ}
    (h : s.contains id endpoint w = .ok b w') : s.sees w.log id endpoint = .ok b := by
  unfold contains at h
  unfold sees
  split at h
  · next hp => cases h; rw [if_pos hp]
  · next hp => rw [if_neg hp]; exact World.logContains_ok h

theorem commit_ok {s s' : LogSession} {w w' : World κ} (h : s.commit w = .ok s' w') :
    ∃ log, w.log.append s.pending = .ok log ∧ Alike { w with log } w' := by
  unfold commit at h
  split at h
  · next he =>
    cases h
    refine ⟨w.log, ?_, Std.Refl.refl _⟩
    rw [List.isEmpty_iff.mp he]
    cases w.log <;> rfl
  · obtain ⟨_, u, hu, h1⟩ := bind_ok h
    cases h1
    exact World.logAppend_ok hu

theorem commit_empty {s s' : LogSession} {w w' : World κ} (h : s.commit w = .ok s' w') :
    s' = {} := by
  unfold commit at h
  split at h
  · cases h
    rfl
  · obtain ⟨_, u, -, h1⟩ := bind_ok h
    cases h1
    rfl

theorem commit_error {s : LogSession} {e : StoreError} {w w' : World κ}
    (h : s.commit w = .error e w') : Alike w w' := by
  unfold commit at h
  split at h
  · cases h
  · rcases bind_error h with hu | ⟨_, u, -, h1⟩
    · exact World.logAppend_error hu
    · cases h1

end LogSession

/-! ## The chunk store -/

namespace ChunkSession

/-- The chunks of a message that a session over a store answers. -/
def sees (s : ChunkSession) (c : ChunkStore) (id : String) : Except StoreError (List Chunk) :=
  if s.cleaned.contains id then .ok (s.pendingFor id) else (c.get id).map (· ++ s.pendingFor id)

/-- The number of chunks in the set that a chunk belongs to, beside those there are of it. -/
def expected (existing : List Chunk) (h : ChunkHeaders) : UInt32 :=
  match existing with
  | [] => h.count
  | c :: _ => c.count

theorem arrive_eq (existing : List Chunk) (id : String) (h : ChunkHeaders) (content : Bytes) :
    arrive existing id h content =
      if existing.any fun c => c.index == h.index then .duplicate
      else if existing.length + 1 < (expected existing h).toNat then
        .parked ⟨id, h.index, expected existing h, content⟩
      else .complete (join (existing ++ [⟨id, h.index, expected existing h, content⟩])) := rfl

/-- What taking in a chunk beside those there are of its set makes of a session. -/
def take (s : ChunkSession) (existing : List Chunk) (id : String) (h : ChunkHeaders)
    (payload : Bytes) : Option Bytes × ChunkSession :=
  match arrive existing id h payload with
  | .duplicate => (none, s)
  | .parked c => (none, s.store c)
  | .complete joined => (some joined, s.cleanup id)

/-- What the commit of a session makes of a store. -/
def applied (s : ChunkSession) (c : ChunkStore) : Except StoreError ChunkStore := do
  let c ← c.cleanup s.cleaned
  c.store s.stored

theorem get_eq (s : ChunkSession) (id : String) :
    (s.get id : Op κ StoreError (List Chunk)) =
      (if s.cleaned.contains id then pure [] else World.getChunks id) >>= fun committed =>
        pure (committed ++ s.pendingFor id) := by
  unfold get
  split <;> rfl

theorem get_alike (s : ChunkSession) (id : String) :
    Within Alike (s.get id : Op κ StoreError (List Chunk)) := by
  rw [get_eq]
  refine within_bind ?_ fun _ => within_pure _
  split
  · exact within_pure _
  · exact World.getChunks_alike _

theorem get_ok {s : ChunkSession} {id : String} {cs : List Chunk} {w w' : World κ}
    (h : s.get id w = .ok cs w') : s.sees w.chunks id = .ok cs := by
  rw [get_eq] at h
  obtain ⟨committed, u, hc, h1⟩ := bind_ok h
  cases h1
  unfold sees
  split at hc
  · next hp => cases hc; rw [if_pos hp]; rfl
  · next hp => rw [if_neg hp, World.getChunks_ok hc]; rfl

theorem aggregate_alike (s : ChunkSession) (id : String) (headers : Headers) (payload : Bytes) :
    Within Alike (s.aggregate id headers payload : Op κ ChunkError _) := by
  refine within_bind (Op.within_ofExcept _) fun position => ?_
  cases position with
  | none => exact within_throw _
  | some h =>
    refine within_bind (Op.within_mapError (get_alike s id)) fun existing => ?_
    split <;> exact within_pure _

theorem aggregate_ok {s : ChunkSession} {id : String} {headers : Headers} {payload : Bytes}
    {r : Option Bytes × ChunkSession} {w w' : World κ}
    (h : s.aggregate id headers payload w = .ok r w') :
    ∃ position existing, ChunkHeaders.read headers = .ok (some position) ∧
      s.sees w.chunks id = .ok existing ∧ r = s.take existing id position payload := by
  obtain ⟨position, u, hp, h1⟩ := bind_ok h
  obtain ⟨hr, hu⟩ := Op.ofExcept_ok.mp hp
  subst hu
  cases position with
  | none => cases h1
  | some position =>
    obtain ⟨existing, v, he, h2⟩ := bind_ok h1
    refine ⟨position, existing, hr, get_ok (Op.mapError_ok.mp he), ?_⟩
    unfold take
    cases ha : arrive existing id position payload <;> simp only [ha] at h2 <;> cases h2 <;> rfl

/-- Cleaning up, then storing, each unless there is nothing to it. -/
theorem commit_eq (s : ChunkSession) :
    (s.commit : Op κ StoreError ChunkSession) =
      (if s.cleaned.isEmpty then pure () else World.cleanChunks s.cleaned) >>= fun _ =>
        (if s.stored.isEmpty then pure () else World.storeChunks s.stored) >>= fun _ =>
          pure {} := by
  unfold commit
  split <;> split <;> rfl

theorem clean_ok {s : ChunkSession} {w w' : World κ}
    (h : (if s.cleaned.isEmpty then pure () else World.cleanChunks s.cleaned : Op κ _ Unit) w =
      .ok () w') :
    ∃ chunks, w.chunks.cleanup s.cleaned = .ok chunks ∧ Alike { w with chunks } w' := by
  split at h
  · next he =>
    cases h
    refine ⟨w.chunks, ?_, Std.Refl.refl _⟩
    rw [List.isEmpty_iff.mp he]
    cases w.chunks with
    | memory cs => simp [ChunkStore.cleanup, Chunks.cleanup]
    | table t => rfl
  · exact World.cleanChunks_ok h

theorem commit_ok {s s' : ChunkSession} {w w' : World κ} (h : s.commit w = .ok s' w') :
    ∃ chunks, s.applied w.chunks = .ok chunks ∧ Alike { w with chunks } w' := by
  rw [commit_eq] at h
  obtain ⟨_, u, hu, h1⟩ := bind_ok h
  obtain ⟨_, v, hv, h2⟩ := bind_ok h1
  cases h2
  obtain ⟨cleaned, hc, hwu⟩ := clean_ok hu
  have hstore : ∃ chunks, u.chunks.store s.stored = .ok chunks ∧ Alike { u with chunks } w' := by
    split at hv
    · next he =>
      injection hv with _ huw
      subst huw
      refine ⟨u.chunks, ?_, Std.Refl.refl _⟩
      rw [List.isEmpty_iff.mp he]
      cases u.chunks <;> rfl
    · exact World.storeChunks_ok hv
  obtain ⟨stored, hs, huw⟩ := hstore
  refine ⟨stored, ?_, (hwu.withChunks stored).trans huw⟩
  rw [hwu.chunks] at hs
  rw [applied, hc]
  exact hs

theorem commit_empty {s s' : ChunkSession} {w w' : World κ} (h : s.commit w = .ok s' w') :
    s' = {} := by
  rw [commit_eq] at h
  obtain ⟨_, u, -, h1⟩ := bind_ok h
  obtain ⟨_, v, -, h2⟩ := bind_ok h1
  cases h2
  rfl

theorem commit_error {s : ChunkSession} {e : StoreError} {w w' : World κ}
    (h : s.commit w = .error e w') :
    Alike w w' ∨ ∃ chunks, w.chunks.cleanup s.cleaned = .ok chunks ∧ Alike { w with chunks } w' := by
  rw [commit_eq] at h
  rcases bind_error h with hu | ⟨_, u, hu, h1⟩
  · split at hu
    · cases hu
    · exact Or.inl (World.cleanChunks_error hu)
  rcases bind_error h1 with hv | ⟨_, v, -, h2⟩
  · obtain ⟨chunks, hc, hwu⟩ := clean_ok hu
    split at hv
    · cases hv
    · exact Or.inr ⟨chunks, hc, hwu.trans (World.storeChunks_error hv)⟩
  · cases h2

end ChunkSession

end Relay
