import Relay.Proofs.Confinement
/-!
# Commits, one after the other

The participants of a transaction are the outbox, the inbound log, the chunk store and then whatever
was enlisted (`Participant`). A commit or a rollback is a sequence of calls to them (`Served`), and
every participant gets one of the right kind, or none: up to the first that fails they commit, from
there on they are rolled back, the failing one included.

Results:
- `Resource.commitAll_served`, `Resource.rollbackAll_served`: the calls to any participants.
- `Transaction.commit_unproduced`: a commit whose outbox cannot be produced leaves the stores alone.
- `Transaction.calls_in_turn`: what a commit and a rollback call.
-/
namespace Relay

variable {κ ρ : Type}

/-! ## Calls -/

/-- A call to a participant. -/
inductive Request (ρ : Type)
  | commit (r : ρ)
  | rollback (r : ρ)

/-- What the call does, where `f` tells what the participants do. -/
def Request.op (f : ρ → Resource κ) : Request ρ → Op κ StoreError Unit
  | .commit r => (f r).commit
  | .rollback r => (f r).rollback

/-- Calls with what came of them, made in order, each once, also past those that have failed. -/
inductive Served (f : ρ → Resource κ) :
    List (Request ρ × Except StoreError Unit) → World κ → World κ → Prop
  | nil (w : World κ) : Served f [] w w
  | cons {c answer cs w u v} (h : (c.op f).exec w = (answer, u)) (hs : Served f cs u v) :
    Served f ((c, answer) :: cs) w v

/-- What comes of calls that are all made: the first failure among the answers, if there is one. -/
def firstFailure : List (Except StoreError Unit) → Except StoreError Unit
  | [] => .ok ()
  | .error e :: _ => .error e
  | .ok _ :: answers => firstFailure answers

theorem Op.exec_ofExcept {ε α : Type} (x : Except ε α) (w : World κ) :
    (Op.ofExcept x : Op κ ε α).exec w = (x, w) := by
  cases x <;> rfl

namespace Resource

variable {r : Resource κ} {rs : List (Resource κ)} {w : World κ}

/-- The first participant and the others are rolled back, whatever comes of the first. -/
theorem rollbackAll_cons (r : Resource κ) (rs : List (Resource κ)) (w : World κ) :
    (rollbackAll (r :: rs)).exec w =
      (match (r.rollback.exec w).1 with
        | .error e => .error e
        | .ok _ => ((rollbackAll rs).exec (r.rollback.exec w).2).1,
        ((rollbackAll rs).exec (r.rollback.exec w).2).2) := by
  have hrun : rollbackAll (r :: rs) w = Op.ofExcept
      (match (r.rollback.exec w).1 with
        | .error e => .error e
        | .ok _ => ((rollbackAll rs).exec (r.rollback.exec w).2).1)
      ((rollbackAll rs).exec (r.rollback.exec w).2).2 := by
    rw [rollbackAll, bind_of_ok (Op.attempt_eq _ w)]
    exact bind_of_ok (Op.attempt_eq _ _)
  rw [Op.exec, hrun, ← Op.exec]
  exact Op.exec_ofExcept _ _

/-- **Every participant is rolled back once**, and the first failure comes out. -/
theorem rollbackAll_served (f : ρ → Resource κ) (ps : List ρ) (w : World κ) :
    ∃ calls v, calls.map Prod.fst = ps.map .rollback ∧ Served f calls w v ∧
      (rollbackAll (ps.map f)).exec w = (firstFailure (calls.map Prod.snd), v) := by
  induction ps generalizing w with
  | nil => exact ⟨[], w, rfl, .nil w, rfl⟩
  | cons p ps ih =>
    cases hp : (f p).rollback.exec w with
    | mk answer u =>
    obtain ⟨calls, v, hcalls, hs, hrest⟩ := ih u
    refine ⟨(.rollback p, answer) :: calls, v, congrArg _ hcalls, .cons hp hs, ?_⟩
    rw [List.map_cons, rollbackAll_cons, hp]
    cases answer with
    | error e =>
      have hworld : ((rollbackAll (ps.map f)).exec u).2 = v := congrArg Prod.snd hrest
      exact Prod.ext rfl hworld
    | ok _ => exact hrest

/-- **Participants commit up to the first that fails**; that one and those behind it are rolled back,
each once, and its failure comes out. -/
theorem commitAll_served (f : ρ → Resource κ) (ps : List ρ) (w : World κ) :
    (∃ v, Served f (ps.map fun p => (.commit p, .ok ())) w v ∧
        commitAll (ps.map f) w = .ok () v) ∨
      ∃ before p after undone e v, ps = before ++ p :: after ∧
        undone.map Prod.fst = (p :: after).map .rollback ∧
        Served f (before.map (fun p => (.commit p, .ok ())) ++ (.commit p, .error e) :: undone)
          w v ∧
        commitAll (ps.map f) w = .error e v := by
  induction ps generalizing w with
  | nil => exact .inl ⟨w, .nil w, rfl⟩
  | cons p ps ih =>
    cases hc : commitAll ((p :: ps).map f) w with
    | ok _ v =>
      obtain ⟨u, hp, hps⟩ := commitAll_ok hc
      rcases ih u with ⟨v', hs, hv⟩ | ⟨_, _, _, _, _, _, -, -, -, hv⟩
      · rw [hps] at hv
        cases hv
        exact .inl ⟨v, .cons (Op.exec_ok.mpr hp) hs, rfl⟩
      · rw [hps] at hv
        cases hv
    | error e v =>
      refine .inr ?_
      rcases commitAll_error hc with ⟨u, hp, rfl⟩ | ⟨u, hp, hps⟩
      · obtain ⟨undone, v, hundone, hs, hv⟩ := rollbackAll_served f (p :: ps) u
        have hworld : endState (rollbackAll ((p :: ps).map f)) u = v := by rw [← Op.exec_world, hv]
        exact ⟨[], p, ps, undone, e, v, rfl, hundone, .cons (Op.exec_error.mpr hp) hs,
          congrArg _ hworld⟩
      · rcases ih u with ⟨_, -, hv⟩ | ⟨before, q, after, undone, e', v', rfl, hundone, hs, hv⟩
        · rw [hps] at hv
          cases hv
        · rw [hps] at hv
          cases hv
          exact ⟨p :: before, q, after, undone, e, v, rfl, hundone,
            .cons (Op.exec_ok.mpr hp) hs, rfl⟩

/-- A participant with nothing to undo is rolled back without a trace. -/
theorem rollbackAll_idle (hr : r.rollback = pure ()) :
    (rollbackAll (r :: rs)).exec w = (rollbackAll rs).exec w := by
  have hcons := rollbackAll_cons r rs w
  rw [hr] at hcons
  exact hcons

/-- Where the first participant fails, all of them are rolled back. -/
theorem commitAll_refused {e : StoreError} {u : World κ} (h : r.commit w = .error e u) :
    commitAll (r :: rs) w = .error e ((rollbackAll (r :: rs)).exec u).2 := by
  rw [commitAll, bind_of_ok (Op.attempt_eq _ w), Op.exec_error.mpr h]
  dsimp only
  rw [bind_of_ok (Op.attempt_eq _ u)]
  rfl

end Resource

/-! ## The outbox goes first -/

/-- Two worlds with the same inbound log and the same chunk store. -/
structure World.SameStores (w w' : World κ) : Prop where
  log : w'.log = w.log
  chunks : w'.chunks = w.chunks

instance : Std.Refl (World.SameStores (κ := κ)) := ⟨fun _ => ⟨rfl, rfl⟩⟩

instance : IsTrans (World κ) World.SameStores :=
  ⟨fun _ _ _ h h' => ⟨h'.log.trans h.log, h'.chunks.trans h.chunks⟩⟩

/-- Calls that each leave the stores alone leave them alone together. -/
theorem Served.sameStores {f : ρ → Resource κ} {calls : List (Request ρ × Except StoreError Unit)}
    {w v : World κ} (h : Served f calls w v)
    (hall : ∀ c ∈ calls, Within World.SameStores (c.1.op f)) : w.SameStores v := by
  induction h with
  | nil w => exact Std.Refl.refl w
  | @cons c answer cs w u v hc hs ih =>
    obtain ⟨hfirst, hrest⟩ := List.forall_mem_cons.mp hall
    have hu : w.SameStores u := by
      have hend := hfirst w
      rwa [← Op.exec_world, hc] at hend
    exact IsTrans.trans _ _ _ hu (ih hrest)

/-- Who takes part in a transaction. -/
inductive Participant (κ : Type)
  | outbox
  | inboundLog
  | chunkStore
  | enlisted (r : Resource κ)

namespace Transaction

variable {wire : Wire} {tx : Transaction κ} {w u : World κ} {e : StoreError}

/-- What a participant does. The outbox produces its messages, the two stores write what their
sessions hold; all three only forget it when they are rolled back. -/
def part (tx : Transaction κ) (wire : Wire) : Participant κ → Resource κ
  | .outbox => ⟨flush wire tx.outbox, pure ()⟩
  | .inboundLog => ⟨discard tx.log.commit, pure ()⟩
  | .chunkStore => ⟨discard tx.chunks.commit, pure ()⟩
  | .enlisted r => r

/-- Everyone who takes part, in the order in which they commit. -/
def parties (tx : Transaction κ) : List (Participant κ) :=
  .outbox :: .inboundLog :: .chunkStore :: tx.resources.map .enlisted

theorem participants_eq (tx : Transaction κ) (wire : Wire) :
    tx.participants wire = tx.parties.map (tx.part wire) := by
  have henlisted : tx.part wire ∘ Participant.enlisted = id := rfl
  simp only [participants, parties, List.map_cons, List.map_map, henlisted, List.map_id, part,
    List.cons_append, List.nil_append]

/-- A rollback changes the stores only where a resource's does. -/
theorem part_reverts (hr : tx.Reverts World.SameStores) {c : Request (Participant κ)}
    (hc : c ∈ tx.parties.map .rollback) : Within World.SameStores (c.op (tx.part wire)) := by
  obtain ⟨p, hp, rfl⟩ := List.mem_map.mp hc
  cases p with
  | outbox => exact within_pure ()
  | inboundLog => exact within_pure ()
  | chunkStore => exact within_pure ()
  | enlisted r =>
    have hmem : r ∈ tx.resources := by simpa [parties] using hp
    exact hr r hmem

/-- **A commit whose outbox cannot be produced** has called nothing else to commit: all that follows
are the rollbacks. So the stores are as they were, unless those of the resources change them. -/
theorem commit_unproduced (h : flush wire tx.outbox w = .error e u) :
    w.SameStores u ∧ ∃ undone v, undone.map Prod.fst = tx.parties.map .rollback ∧
      Served (tx.part wire) undone u v ∧ tx.commit wire w = .error e v ∧
      (tx.Reverts World.SameStores → w.SameStores v) := by
  have hsends := (flush_sends wire tx.outbox).error h
  have hu : w.SameStores u := ⟨hsends.log, hsends.chunks⟩
  obtain ⟨undone, v, hundone, hs, hv⟩ := Resource.rollbackAll_served (tx.part wire) tx.parties u
  refine ⟨hu, undone, v, hundone, hs, ?_, fun hr => IsTrans.trans _ _ _ hu (hs.sameStores ?_)⟩
  · have hall : tx.participants wire =
        ⟨flush wire tx.outbox, pure ()⟩ :: (tx.participants wire).tail := rfl
    rw [commit, hall, Resource.commitAll_refused h, ← hall, participants_eq, hv]
  · intro c hc
    exact part_reverts hr (hundone ▸ List.mem_map_of_mem hc)

/-- **Participants are called one after the other**, however many are enlisted and whichever of them
fail: first the outbox, then the inbound log, the chunk store and the resources as enlisted. A commit
calls those up to the first that fails to commit, and that one and those behind it to roll back, each
once; its failure comes out. If none fails, all commit. If the first one is the outbox, both stores
stay as they were. A rollback calls all of them, each once, and the first failure comes out. -/
theorem calls_in_turn (tx : Transaction κ) (wire : Wire) (w : World κ) :
    ((∃ v, Served (tx.part wire) (tx.parties.map fun p => (.commit p, .ok ())) w v ∧
        tx.commit wire w = .ok () v) ∨
      ∃ before p after undone e v, tx.parties = before ++ p :: after ∧
        undone.map Prod.fst = (p :: after).map .rollback ∧
        Served (tx.part wire)
          (before.map (fun p => (.commit p, .ok ())) ++ (.commit p, .error e) :: undone) w v ∧
        tx.commit wire w = .error e v) ∧
      (∀ e u, flush wire tx.outbox w = .error e u →
        w.SameStores u ∧ ∃ undone v, undone.map Prod.fst = tx.parties.map .rollback ∧
          Served (tx.part wire) undone u v ∧ tx.commit wire w = .error e v ∧
          (tx.Reverts World.SameStores → w.SameStores v)) ∧
      ∃ calls v, calls.map Prod.fst = tx.parties.map .rollback ∧
        Served (tx.part wire) calls w v ∧
        (tx.rollback wire).exec w = (firstFailure (calls.map Prod.snd), v) := by
  refine ⟨?_, fun _ _ => commit_unproduced, ?_⟩
  · rw [commit, participants_eq]
    exact Resource.commitAll_served _ _ w
  · rw [rollback, participants_eq]
    exact Resource.rollbackAll_served _ _ w

/-! ### Participants that take notes -/

/-- A resource that notes what it is called to do, and may fail at it. -/
def noting (name : String) (commits reverts : Bool) : Resource String where
  commit := do
    World.note ("commit " ++ name)
    if commits then pure () else throw (.backend name)
  rollback := do
    World.note ("roll back " ++ name)
    if reverts then pure () else throw (.backend name)

theorem noting_reverts (name : String) (commits reverts : Bool) :
    Within World.SameStores (noting name commits reverts).rollback := by
  refine within_bind (within_modify fun _ => ⟨rfl, rfl⟩) fun _ => ?_
  cases reverts with
  | true => exact within_pure ()
  | false => exact within_throw _

/-- A message waits in the outbox, an entry for the log, a chunk for the chunk store, and three
resources are enlisted. -/
def enlisted : Transaction String where
  outbox := [⟨⟨"payments", none, []⟩, .record ⟨⟨"Ping", [], []⟩, ()⟩, .empty⟩]
  log := { pending := [⟨"a", "orders"⟩] }
  chunks := { stored := [⟨"b", 0, 2, [7]⟩] }
  resources := [noting "first" true true, noting "second" false false, noting "third" true false]

theorem enlisted_reverts : enlisted.Reverts World.SameStores := by
  intro r hr
  simp only [enlisted, List.mem_cons, List.not_mem_nil, or_false] at hr
  rcases hr with rfl | rfl | rfl <;> exact noting_reverts _ _ _

/-- Pings are known on the wire. -/
def pingWire : Wire := ⟨.ofList [(⟨"Ping", [], []⟩, "ping")], none⟩

/-- A world without a message, whose transport produces or refuses to. -/
def blank (refuses : Bool) : World String :=
  { World.create .memory with transport := { failOnProduce := refuses } }

/-- The second of the resources fails, with the message produced, both stores written and the first
resource committed before it; it and the third are rolled back. Where the outbox cannot be produced,
both stores stay as they were and all resources are rolled back, also past one that fails at it. A
rollback goes the same way, and the first failure comes out. -/
theorem calls_in_turn_enlisted :
    (∃ before p after undone v, enlisted.parties = before ++ p :: after ∧
      undone.map Prod.fst = (p :: after).map .rollback ∧
      Served (enlisted.part pingWire) (before.map (fun p => (.commit p, .ok ())) ++
        (.commit p, .error (.backend "second")) :: undone) (blank false) v ∧
      enlisted.commit pingWire (blank false) = .error (.backend "second") v ∧
      (v.transport.topic "payments").log.length = 1 ∧
      v.log.contains "a" "orders" = .ok true ∧ v.chunks.get "b" = .ok [⟨"b", 0, 2, [7]⟩] ∧
      v.notes = ["commit first", "commit second", "roll back second", "roll back third"]) ∧
    (∃ e v, enlisted.commit pingWire (blank true) = .error e v ∧ (blank true).SameStores v ∧
      v.notes = ["roll back first", "roll back second", "roll back third"]) ∧
    ∃ calls v, calls.map Prod.fst = enlisted.parties.map .rollback ∧
      Served (enlisted.part pingWire) calls (blank false) v ∧
      firstFailure (calls.map Prod.snd) = .error (.backend "second") ∧
      (blank false).SameStores v ∧
      v.notes = ["roll back first", "roll back second", "roll back third"] := by
  refine ⟨?_, ?_, ?_⟩
  · have hends : succeeds (enlisted.commit pingWire) (blank false) = false ∧
        ((enlisted.commit pingWire).exec (blank false)).1 = .error (.backend "second") := by
      decide +kernel
    obtain ⟨e', u, hfails⟩ := error_of_succeeds hends.1
    rcases (calls_in_turn enlisted pingWire (blank false)).1 with
      ⟨v, -, hv⟩ | ⟨before, p, after, undone, e, v, hall, hundone, hs, hv⟩
    · cases hv.symm.trans hfails
    have he : e = .backend "second" := by
      have hfirst := hends.2
      rw [Op.exec_error.mpr hv] at hfirst
      exact Except.error.inj hfirst
    subst he
    have hleft : ((endState (enlisted.commit pingWire) (blank false)).transport.topic
          "payments").log.length = 1 ∧
        (endState (enlisted.commit pingWire) (blank false)).log.contains "a" "orders" = .ok true ∧
        (endState (enlisted.commit pingWire) (blank false)).chunks.get "b" =
          .ok [⟨"b", 0, 2, [7]⟩] ∧
        (endState (enlisted.commit pingWire) (blank false)).notes =
          ["commit first", "commit second", "roll back second", "roll back third"] := by
      decide +kernel
    rw [endState_of_error hv] at hleft
    exact ⟨before, p, after, undone, v, hall, hundone, hs, hv, hleft⟩
  · obtain ⟨e, u, hf⟩ : ∃ e u, flush pingWire enlisted.outbox (blank true) = .error e u :=
      error_of_succeeds (by decide +kernel)
    obtain ⟨-, undone, v, -, -, hcommit, hsame⟩ :=
      (calls_in_turn enlisted pingWire (blank true)).2.1 e u hf
    have hnotes : (endState (enlisted.commit pingWire) (blank true)).notes =
        ["roll back first", "roll back second", "roll back third"] := by decide +kernel
    rw [endState_of_error hcommit] at hnotes
    exact ⟨e, v, hcommit, hsame enlisted_reverts, hnotes⟩
  · obtain ⟨calls, v, hcalls, hs, hv⟩ := (calls_in_turn enlisted pingWire (blank false)).2.2
    have hends : ((enlisted.rollback pingWire).exec (blank false)).1 =
          .error (.backend "second") ∧
        ((enlisted.rollback pingWire).exec (blank false)).2.notes =
          ["roll back first", "roll back second", "roll back third"] := by decide +kernel
    rw [hv] at hends
    exact ⟨calls, v, hcalls, hs, hends.1, hs.sameStores fun c hc =>
      part_reverts enlisted_reverts (hcalls ▸ List.mem_map_of_mem hc), hends.2⟩

end Transaction

end Relay
