import Relay.Proofs.Consumer.Batching
import Relay.Proofs.Talk
/-!
# Transactions that overlap

Two transactions are open at a time over one log and one chunk store. Each looks up what is committed
while it processes its messages, and writes what it has buffered when it commits; rows that are present
by then are left as they are, and nobody is told. So two transactions that take in one message each
before the other commits both accept it (`Interleaved.serializable_unless`).

`Interleaved.serializable` says when this cannot happen. It is about every interleaving of the calls
that the two make to the stores, those of their commits included, in which of the calls that conflict
those of one transaction all come first: then all is as if that transaction had been run as a whole
before the other, no message id is accepted by both, and no set of chunks is left complete. Batches
without a message id in common never conflict (`Interleaved.precedes_of_disjoint`).
-/
namespace Relay

open World (Same)

variable {κ : Type}

/-! ## Sets that are complete -/

/-- There are as many chunks as the first of them says. -/
def Chunks.Complete (cs : List Chunk) : Prop := ∃ c ∈ cs.head?, c.count.toNat ≤ cs.length

namespace Decision

variable {raw : RawEnvelope} {known : Bool} {cs : List Chunk}

/-- A chunk is parked only while others of its set are missing. -/
theorem about_park {c : Chunk} (h : about raw known cs = .park c) :
    ∃ d ∈ (cs ++ [c]).head?, cs.length + 1 < d.count.toNat := by
  cases known with
  | true => cases h
  | false =>
    cases hchunk : Settlement.isChunk raw.headers with
    | false => rw [about_plain hchunk] at h; cases h
    | true =>
      obtain ⟨position, hread⟩ := Settlement.isChunk_iff.mp hchunk
      rw [about_chunk hread, ChunkSession.arrive_eq] at h
      split_ifs at h with hdup hlt
      cases h
      cases cs with
      | nil => exact ⟨_, rfl, hlt⟩
      | cons d ds => exact ⟨d, rfl, hlt⟩

/-- No decision completes a set and leaves it. -/
theorem left_complete (h : Chunks.Complete ((about raw known cs).left cs)) : Chunks.Complete cs := by
  cases hd : about raw known cs with
  | drop => rwa [hd] at h
  | pass => rwa [hd] at h
  | join payload =>
    rw [hd] at h
    obtain ⟨c, hc, -⟩ := h
    cases hc
  | park c =>
    rw [hd] at h
    obtain ⟨d, hhead, hlt⟩ := about_park hd
    obtain ⟨d', hhead', hle⟩ := h
    obtain rfl : d = d' := Option.some.inj (hhead.symm.trans hhead')
    simp only [left, List.length_append, List.length_singleton] at hle
    omega

end Decision

namespace Ledger

variable {L : Ledger} {endpoint : Endpoint} {id : String}

theorem next_complete {m : RawMessage}
    (h : Chunks.Complete (Chunks.ofMessage (L.next endpoint m).parked id)) :
    Chunks.Complete (Chunks.ofMessage L.parked id) := by
  cases hraw : RawEnvelope.ofMessage endpoint m with
  | error e =>
    unfold next at h
    rwa [hraw] at h
  | ok raw =>
    rw [next_ok hraw, carry_chunks (fun c hc => decide_park hc)] at h
    split at h
    · next hid =>
      subst hid
      exact Decision.left_complete h
    · exact h

/-- **No batch leaves a set complete that was not.** -/
theorem after_complete {ms : List RawMessage}
    (h : Chunks.Complete (Chunks.ofMessage (L.after endpoint ms).parked id)) :
    Chunks.Complete (Chunks.ofMessage L.parked id) := by
  unfold after at h
  induction ms generalizing L with
  | nil => exact h
  | cons m ms ih => exact next_complete (ih h)

end Ledger

/-! ## Jobs -/

/-- A batch of an endpoint, with what it takes to read it. -/
structure Job where
  wire : Wire
  endpoint : Endpoint
  messages : List RawMessage

namespace Job

/-- Runs the batch through the pipeline in a transaction of its own and commits it. -/
def run (j : Job) : Op κ InboundError Handled := (Handling.process j.messages).run j.wire j.endpoint

/-- The same as a dialogue with the stores. -/
def dialogue (j : Job) : Dialogue (List Message) := .transact j.wire j.endpoint j.messages

/-- One of the messages has the id. -/
def Names (j : Job) (id : String) : Prop :=
  ∃ m ∈ j.messages, m.headers.get? Headers.messageId = some id

theorem dialogue_about (j : Job) : j.dialogue.Only (StoreCall.About j.Names) fun _ => True :=
  Dialogue.transact_about j.wire j.endpoint fun m hm _ hid => ⟨m, hm, hid⟩

/-- The one job, and after it the other, lead from the world to what cannot be told from `w'`, each
accepting what is given. -/
def InTurn (j k : Job) (out out' : List Message) (w w' : World κ) : Prop :=
  ∃ u v, j.run w = .ok (.accepted out) u ∧ k.run u = .ok (.accepted out') v ∧ Same w' v

variable {j k : Job} {out out' : List Message} {w u v w' : World κ} {cs : List StoreCall}

theorem run_of_runs (h : Runs j.dialogue w cs out u) : j.run w = .ok (.accepted out) u := by
  unfold run
  rw [Dialogue.run_transact]
  exact bind_of_ok h.run

theorem runs_of_run (h : j.run w = .ok (.accepted out) u) : ∃ cs, Runs j.dialogue w cs out u := by
  unfold run at h
  rw [Dialogue.run_transact] at h
  obtain ⟨out', v, hout, h1⟩ := bind_ok h
  cases h1
  exact Runs.of_run hout

theorem run_accepts (h : j.run w = .ok (.accepted out) u) :
    w.ledger.accept j.wire j.endpoint j.messages = .ok out ∧
      u.ledger = w.ledger.after j.endpoint j.messages := by
  obtain ⟨hhandle, hledger⟩ := Handling.run_ok h
  refine ⟨?_, hledger⟩
  change (w.ledger.accept j.wire j.endpoint j.messages).map Handled.accepted = _ at hhandle
  cases ha : w.ledger.accept j.wire j.endpoint j.messages with
  | error e => rw [ha] at hhandle; cases hhandle
  | ok out' => rw [ha] at hhandle; cases hhandle; rfl

/-- Of two jobs in turn on one endpoint, the second accepts nothing that the first has accepted. -/
theorem InTurn.apart (h : InTurn j k out out' w w')
    (hname : j.endpoint.name = k.endpoint.name) {id : String} (hid : id ∈ envelopeIds out) :
    id ∉ envelopeIds out' := by
  obtain ⟨u, v, hj, hk, -⟩ := h
  obtain ⟨haccept, hledger⟩ := run_accepts hj
  obtain ⟨haccept', -⟩ := run_accepts hk
  obtain ⟨-, hlogged⟩ := Ledger.accept_new haccept hid
  intro hid'
  obtain ⟨hnew, -⟩ := Ledger.accept_new haccept' hid'
  rw [hledger, ← hname] at hnew
  exact hnew hlogged

/-- Nor is a set complete after two jobs that was not before them. -/
theorem InTurn.complete (h : InTurn j k out out' w w') {id : String}
    {cs : List Chunk} (hcs : w'.chunks.get id = .ok cs) (hc : Chunks.Complete cs) :
    Chunks.Complete (Chunks.ofMessage w.chunks.items id) := by
  obtain ⟨u, v, hj, hk, hs⟩ := h
  obtain ⟨-, hledger⟩ := run_accepts hj
  obtain ⟨-, hledger'⟩ := run_accepts hk
  have hcs' : v.chunks.get id = .ok cs := (hs.look (.set id)).trans hcs
  rw [ChunkStore.get_items hcs'] at hc
  change Chunks.Complete (Chunks.ofMessage v.ledger.parked id) at hc
  rw [hledger', hledger] at hc
  exact Ledger.after_complete (Ledger.after_complete hc)

end Job

/-! ## Overlapping jobs -/

namespace Interleaved

variable {j k : Job} {w w' : World κ} {calls : List (Side × StoreCall)} {out out' : List Message}

/-- One job after the other is an interleaving in which all calls of the first precede. -/
theorem of_in_turn {u : World κ} (hj : j.run w = .ok (.accepted out) u)
    (hk : k.run u = .ok (.accepted out') w') :
    ∃ calls, Interleaved j.dialogue k.dialogue w calls out out' w' ∧ Side.left.Precedes calls := by
  obtain ⟨ls, hl⟩ := Job.runs_of_run hj
  obtain ⟨rs, hr⟩ := Job.runs_of_run hk
  refine ⟨_, .of_runs hl hr, List.pairwise_append.mpr ⟨?_, ?_, ?_⟩⟩
  · exact List.pairwise_map.mpr (List.pairwise_of_forall fun _ _ hne => absurd rfl hne)
  · exact List.pairwise_map.mpr (List.pairwise_of_forall fun _ _ hne => absurd rfl hne)
  · intro x hx y _ _ _
    obtain ⟨c, -, rfl⟩ := List.mem_map.mp hx
    rfl

theorem in_turn (h : Interleaved j.dialogue k.dialogue w calls out out' w') (hw : w.Calm)
    (ho : Side.left.Precedes calls) : Job.InTurn j k out out' w w' := by
  obtain ⟨u, v, hj, hk, hs⟩ := h.serial hw ho
  exact ⟨u, v, Job.run_of_runs hj, Job.run_of_runs hk, hs⟩

/-- **Overlapping transactions are serializable where conflicts go one way.** Two transactions take
turns at every call to the stores, those of their commits included, and of the calls that conflict
those of one of them come first. Then running it as a whole and the other one after it accepts the
same and leaves the same in the log and the chunk store. On one endpoint no message id is accepted by
both, and a set of chunks that is complete at the end was so at first. -/
theorem serializable (hw : w.Calm) (h : Interleaved j.dialogue k.dialogue w calls out out' w')
    (ho : Side.left.Precedes calls ∨ Side.right.Precedes calls) :
    (Job.InTurn j k out out' w w' ∨ Job.InTurn k j out' out w w') ∧
      (j.endpoint.name = k.endpoint.name → ∀ id ∈ envelopeIds out, id ∉ envelopeIds out') ∧
      ∀ id cs, w'.chunks.get id = .ok cs → Chunks.Complete cs →
        ∃ cs₀, w.chunks.get id = .ok cs₀ ∧ Chunks.Complete cs₀ := by
  have hturn : Job.InTurn j k out out' w w' ∨ Job.InTurn k j out' out w w' :=
    ho.imp (h.in_turn hw) fun ho => h.symm.in_turn hw ho.symm
  refine ⟨hturn, fun hname id hid hid' => ?_, fun id cs hcs hc => ?_⟩
  · rcases hturn with hjk | hkj
    · exact hjk.apart hname hid hid'
    · exact hkj.apart hname.symm hid' hid
  · obtain ⟨cs₀, hcs₀⟩ := h.looked (p := .set id) hcs
    refine ⟨cs₀, hcs₀, ?_⟩
    rw [ChunkStore.get_items hcs₀]
    rcases hturn with hjk | hkj
    · exact hjk.complete hcs hc
    · exact hkj.complete hcs hc

/-- **Batches without a message id in common do not conflict**, so each side precedes the other. -/
theorem precedes_of_disjoint (h : Interleaved j.dialogue k.dialogue w calls out out' w')
    (hd : ∀ id, j.Names id → ¬ k.Names id) (side : Side) : side.Precedes calls := by
  have hcalls := h.only j.dialogue_about k.dialogue_about
  refine List.pairwise_of_forall_mem_list fun x hx y hy hne hc => ?_
  obtain ⟨hxl, hxr⟩ := hcalls x hx
  obtain ⟨hyl, hyr⟩ := hcalls y hy
  rcases x with ⟨_ | _, c⟩ <;> rcases y with ⟨_ | _, d⟩
  · exact absurd rfl hne
  · exact absurd hc ((hxl rfl).apart (hyr rfl) hd)
  · exact absurd hc.symm ((hyl rfl).apart (hxr rfl) hd)
  · exact absurd rfl hne

/-! ### Pings that overlap -/

open Course (emptyWorld)
open Worker (ping pinged)

/-- Pings that are received on the endpoint of orders. -/
def pings (ms : List RawMessage) : Job := ⟨pinged.service.wire, ⟨"orders", none, []⟩, ms⟩

/-- The right side asks for a ping of its own while the left one takes in another, and for this one
after the left side has committed. -/
theorem serializable_pings :
    ∃ calls out out' w',
      Interleaved (pings [ping "a" none [0x7B, 0x7D] "0"]).dialogue
        (pings [ping "b" none [0x7B, 0x7D] "0", ping "a" none [0x7B, 0x7D] "1"]).dialogue
        emptyWorld calls out out' w' ∧
      Side.left.Precedes calls ∧ envelopeIds out = ["a"] ∧ envelopeIds out' = ["b"] ∧
      (Job.InTurn (pings [ping "a" none [0x7B, 0x7D] "0"])
          (pings [ping "b" none [0x7B, 0x7D] "0", ping "a" none [0x7B, 0x7D] "1"])
          out out' emptyWorld w' ∨
        Job.InTurn (pings [ping "b" none [0x7B, 0x7D] "0", ping "a" none [0x7B, 0x7D] "1"])
          (pings [ping "a" none [0x7B, 0x7D] "0"]) out' out emptyWorld w') ∧
      ∀ id ∈ envelopeIds out, id ∉ envelopeIds out' := by
  have hturns : ∃ calls out out' w',
      Dialogue.turns [.right, .left, .left, .right, .right]
        (pings [ping "a" none [0x7B, 0x7D] "0"]).dialogue
        (pings [ping "b" none [0x7B, 0x7D] "0", ping "a" none [0x7B, 0x7D] "1"]).dialogue
        emptyWorld = some (calls, out, out', w') ∧
      Side.left.Precedes calls ∧ envelopeIds out = ["a"] ∧ envelopeIds out' = ["b"] :=
    ⟨_, _, _, _, by cbv, by decide, by cbv, by cbv⟩
  obtain ⟨calls, out, out', w', ht, ho, hout, hout'⟩ := hturns
  have hcalm : emptyWorld.Calm := fun _ _ hm => by cases hm
  obtain ⟨hturn, hapart, -⟩ := serializable hcalm (.of_turns ht) (.inl ho)
  exact ⟨calls, out, out', w', .of_turns ht, ho, hout, hout', hturn, hapart rfl⟩

/-- Both sides ask before either commits: the same ping is accepted twice, and of two chunks that make
a set both are parked and nothing is joined. Neither order of the two does this. -/
theorem serializable_unless :
    (∃ calls out out' w',
      Interleaved (pings [ping "a" none [0x7B, 0x7D] "0"]).dialogue
        (pings [ping "a" none [0x7B, 0x7D] "1"]).dialogue emptyWorld calls out out' w' ∧
      envelopeIds out = ["a"] ∧ envelopeIds out' = ["a"] ∧
      ¬ Job.InTurn (pings [ping "a" none [0x7B, 0x7D] "0"]) (pings [ping "a" none [0x7B, 0x7D] "1"])
        out out' emptyWorld w' ∧
      ¬ Job.InTurn (pings [ping "a" none [0x7B, 0x7D] "1"]) (pings [ping "a" none [0x7B, 0x7D] "0"])
        out' out emptyWorld w') ∧
    ∃ calls out out' w' cs,
      Interleaved (pings [ping "s" (some ("0", "2")) [0x7B] "0"]).dialogue
        (pings [ping "s" (some ("1", "2")) [0x7D] "1"]).dialogue emptyWorld calls out out' w' ∧
      envelopeIds out = [] ∧ envelopeIds out' = [] ∧ w'.chunks.get "s" = .ok cs ∧
      Chunks.Complete cs ∧
      ¬ Job.InTurn (pings [ping "s" (some ("0", "2")) [0x7B] "0"])
        (pings [ping "s" (some ("1", "2")) [0x7D] "1"]) out out' emptyWorld w' ∧
      ¬ Job.InTurn (pings [ping "s" (some ("1", "2")) [0x7D] "1"])
        (pings [ping "s" (some ("0", "2")) [0x7B] "0"]) out' out emptyWorld w' := by
  constructor
  · have hturns : ∃ calls out out' w',
        Dialogue.turns [.left, .right, .left, .right] (pings [ping "a" none [0x7B, 0x7D] "0"]).dialogue
          (pings [ping "a" none [0x7B, 0x7D] "1"]).dialogue emptyWorld = some (calls, out, out', w') ∧
        envelopeIds out = ["a"] ∧ envelopeIds out' = ["a"] :=
      ⟨_, _, _, _, by cbv, by cbv, by cbv⟩
    obtain ⟨calls, out, out', w', ht, hout, hout'⟩ := hturns
    have hin : "a" ∈ envelopeIds out := hout ▸ List.mem_cons_self
    have hin' : "a" ∈ envelopeIds out' := hout' ▸ List.mem_cons_self
    exact ⟨calls, out, out', w', .of_turns ht, hout, hout',
      fun h => h.apart rfl hin hin', fun h => h.apart rfl hin' hin⟩
  · have hturns : ∃ calls out out' w' cs,
        Dialogue.turns [.left, .left, .right, .right, .left, .right]
          (pings [ping "s" (some ("0", "2")) [0x7B] "0"]).dialogue
          (pings [ping "s" (some ("1", "2")) [0x7D] "1"]).dialogue emptyWorld =
            some (calls, out, out', w') ∧
        envelopeIds out = [] ∧ envelopeIds out' = [] ∧ w'.chunks.get "s" = .ok cs ∧
        ∃ c, cs.head? = some c ∧ c.count.toNat ≤ cs.length :=
      ⟨_, _, _, _, _, by cbv, by cbv, by cbv, by cbv, ⟨_, by cbv, by decide⟩⟩
    obtain ⟨calls, out, out', w', cs, ht, hout, hout', hcs, hc⟩ := hturns
    have hempty : ¬ Chunks.Complete (Chunks.ofMessage emptyWorld.chunks.items "s") := by
      rintro ⟨c, hc, -⟩
      cases hc
    exact ⟨calls, out, out', w', cs, .of_turns ht, hout, hout', hcs, hc,
      fun h => hempty (h.complete hcs hc), fun h => hempty (h.complete hcs hc)⟩

end Interleaved

end Relay
