import Relay.Proofs.Consumer.Attempt
import Relay.Proofs.Consumer.Course
/-!
# Acknowledged means accounted for

`Accounting` is the invariant of a consumer that alone uses its log and its chunk store. It says
which of the delivered messages are acknowledged, that all of them are accounted for, and at each
phase how far the current batch has come. `Accounting.step` carries it through every step, so
that it holds in every reachable state, whatever fails and whenever the consumer is cancelled.
-/
namespace Relay

open World (Alike Aside Kept)

variable {κ : Type}

/-! ## Streams -/

namespace Transport

theorem pull_delivered (t : Transport) (s : Subscription) :
    (t.pull s).2.delivered = s.delivered := by
  unfold pull
  split
  · rfl
  · split
    · rfl
    · rfl
    · split <;> rfl

theorem next_message {t : Transport} {s s' : Subscription} {m : RawMessage}
    (h : t.next s = (some (.message m), s')) : s'.delivered = s.delivered + 1 := by
  have hp := pull_delivered t s
  unfold next at h
  split at h
  · cases h
  split at h
  · cases h
  split at h
  · cases h
  split at h
  · next hpull =>
    rw [hpull] at hp
    cases h
    exact congrArg (· + 1) hp
  · cases h

/-- Only a message counts as delivered. -/
theorem next_delivered {t : Transport} {s s' : Subscription} {i : Option Item}
    (h : t.next s = (i, s')) (hi : ∀ m, i ≠ some (.message m)) : s'.delivered = s.delivered := by
  have hp := pull_delivered t s
  unfold next at h
  split at h
  · cases h; rfl
  split at h
  · cases h; rfl
  split at h
  · cases h; rfl
  split at h
  · cases h
    exact absurd rfl (hi _)
  · next hpull =>
    rw [hpull] at hp
    cases h
    exact hp

end Transport

/-! ## Retried batches -/

/-- A batch as it is tried again stands for the batch as it was delivered. -/
structure StandsFor (endpoint : String) (batch original : List RawMessage) : Prop where
  accounted : ∀ log chunks, (∀ m ∈ batch, Accounted endpoint log chunks m) →
    ∀ m ∈ original, Accounted endpoint log chunks m
  offsets : Attempt.offsets batch = Attempt.offsets original

namespace StandsFor

variable {endpoint : String} {batch original : List RawMessage}

theorem refl (endpoint : String) (batch : List RawMessage) : StandsFor endpoint batch batch :=
  ⟨fun _ _ h => h, rfl⟩

theorem marked (h : StandsFor endpoint batch original) (failed : UInt32) :
    StandsFor endpoint (Attempt.marked failed batch) original := by
  refine ⟨fun log chunks ha => h.accounted log chunks fun m hm => ?_, ?_⟩
  · exact Accounted.marked.mp (ha _ (List.mem_map_of_mem hm))
  · rw [← h.offsets]
    unfold Attempt.offsets Attempt.marked
    rw [List.filterMap_map]
    rfl

end StandsFor

namespace Course

/-! ## The invariant -/

/-- All that was delivered is in batches, and all batches but the last one are finished: the one in
progress, which `batch` stands for. -/
def AtBatch (c : Course κ) (batch : List RawMessage) : Prop :=
  c.delivered = c.batches.flatten ∧ ∃ done original, c.batches = done ++ [original] ∧
    c.finished = done.length ∧ StandsFor c.worker.endpoint.name batch original

/-- Where the worker stands in its batches at a phase. A batch is given up unfinished only by a
worker that was told to stop. -/
def AtPhase (c : Course κ) : Phase κ → Prop
  | .ready => c.delivered = c.batches.flatten ∧ (c.finished = c.batches.length ∨
      c.worker.signal.raised = true ∨ c.worker.signal.abandoned = true)
  | .waiting => c.delivered = c.batches.flatten ∧ (c.finished = c.batches.length ∨
      c.worker.signal.abandoned = true)
  | .filling batch _ => c.finished = c.batches.length ∧
      c.delivered = c.batches.flatten ++ batch
  | .attempting batch _ => c.AtBatch batch
  | .dispatching batch _ tx flow => c.AtBatch batch ∧ tx.Sound c.worker.endpoint.name ∧
      (∀ m ∈ batch, tx.Accounts c.worker.endpoint.name c.world.log c.world.chunks m) ∧
      flow.Keeps (Scope.Aside c.worker.endpoint.name)
  | .pausing batch _ _ => c.AtBatch batch
  | .stopped => True
  | .failed _ => True
  | .panicked => True

/-- The message is accounted for in the stores of the consumer. -/
def Accounts (c : Course κ) (m : RawMessage) : Prop :=
  Accounted c.worker.endpoint.name c.world.log.items c.world.chunks.items m

/-- **The invariant of a consumer that alone uses its stores.** -/
structure Accounting (c : Course κ) : Prop where
  alone : c.worker.Alone
  finished : c.finished ≤ c.batches.length
  delivered : c.batches.flatten <+: c.delivered
  acknowledged : ∀ o, o ∈ c.acknowledgedOffsets ↔
    o ∈ c.base ∨ o ∈ Attempt.offsets c.closed.flatten
  accounted : ∀ m ∈ c.acknowledged, c.Accounts m
  phase : c.AtPhase c.worker.phase

theorem accounting_start {w : Worker κ} (h : w.Alone) (world : World κ) :
    Accounting (start w world) where
  alone := ⟨h.pipeline, h.publisher⟩
  finished := Nat.le_refl 0
  delivered := List.nil_prefix
  acknowledged o := by simp [start, acknowledgedOffsets, closed, Attempt.offsets]
  accounted := by simp [start, Course.acknowledged, closed]
  phase := ⟨rfl, Or.inl rfl⟩

namespace Accounting

variable {c : Course κ}

/-! ## Steps that leave the stores alone -/

/-- The parts of the invariant that do not depend on the phase stay true while the batches and the
world are the same. -/
theorem of_same {c' : Course κ} (h : Accounting c)
    (he : c'.worker.endpoint = c.worker.endpoint) (hs : c'.worker.service = c.worker.service)
    (hw : c'.world = c.world) (hb : c'.batches = c.batches) (hf : c'.finished = c.finished)
    (hbase : c'.base = c.base) (hearlier : c'.earlier = c.earlier)
    (hd : c.delivered <+: c'.delivered) (hp : c'.AtPhase c'.worker.phase) : Accounting c' where
  alone := ⟨by rw [hs]; exact h.alone.pipeline, by rw [hs, he]; exact h.alone.publisher⟩
  finished := by rw [hf, hb]; exact h.finished
  delivered := by rw [hb]; exact h.delivered.trans hd
  acknowledged o := by
    unfold acknowledgedOffsets closed
    rw [hw, he, hb, hf, hbase]
    exact h.acknowledged o
  accounted m hm := by
    unfold Accounts
    rw [hw, he]
    refine h.accounted m ?_
    unfold Course.acknowledged closed at *
    rwa [hearlier, hb, hf] at hm
  phase := hp

end Accounting

theorem taken_message (c : Course κ) {w : Worker κ} {m : RawMessage}
    (h : c.world.transport.next c.worker.stream = (some (.message m), w.stream)) :
    c.taken w = [m] := by
  unfold taken
  rw [if_neg (by rw [Transport.next_message h]; omega), h]

theorem taken_nothing (c : Course κ) {w : Worker κ} {i : Option Item}
    (h : c.world.transport.next c.worker.stream = (i, w.stream))
    (hi : ∀ m, i ≠ some (.message m)) : c.taken w = [] := by
  unfold taken
  rw [if_pos (Transport.next_delivered h hi)]

theorem taken_same (c : Course κ) {w : Worker κ} (h : w.stream = c.worker.stream) :
    c.taken w = [] := by
  unfold taken
  rw [h, if_pos rfl]

namespace Accounting

variable {c : Course κ} {now : Nat}

/-- A step to a phase that neither takes up a batch nor brings one to its end, in the same world. -/
theorem of_move (h : Accounting c) {w : Worker κ} {waits : Bool} {d : List RawMessage}
    (hs : c.worker.step now c.world = ⟨w, c.world, waits⟩)
    (he : w.endpoint = c.worker.endpoint) (hv : w.service = c.worker.service)
    (hb : begun c.worker.phase w.phase = []) (hf : Course.ended c.worker.phase w.phase = 0)
    (ht : c.taken w = d)
    (hp : AtPhase { c with worker := w, delivered := c.delivered ++ d } w.phase) :
    Accounting (c.work now) := by
  have hw : (c.work now).worker = w := by unfold work; rw [hs]
  have hd : (c.work now).delivered = c.delivered ++ d := by unfold work; rw [hs, ← ht]
  have hbs : (c.work now).batches = c.batches := by unfold work; rw [hs]; simp [hb]
  have hfs : (c.work now).finished = c.finished := by unfold work; rw [hs]; simp [hf]
  have hworld : (c.work now).world = c.world := by unfold work; rw [hs]
  refine h.of_same (by rw [hw, he]) (by rw [hw, hv]) hworld hbs hfs rfl rfl
    (by rw [hd]; exact List.prefix_append _ _) ?_
  rw [hw]
  revert hp
  unfold AtPhase AtBatch
  rw [hw, hd, hbs, hfs, hworld]
  exact id

theorem work_ready (h : Accounting c) (hp : c.worker.phase = .ready) : Accounting (c.work now) := by
  have hat := h.phase
  rw [hp] at hat
  have hs : c.worker.step now c.world =
      ⟨{ c.worker with phase := if c.worker.signal.raised then .stopped else .waiting },
        c.world, false⟩ := by
    unfold Worker.step
    rw [hp]
  by_cases hr : c.worker.signal.raised = true
  · rw [if_pos hr] at hs
    exact h.of_move hs rfl rfl (by rw [hp]; rfl) (by rw [hp]; rfl) (c.taken_same rfl) trivial
  · rw [if_neg hr] at hs
    refine h.of_move hs rfl rfl (by rw [hp]; rfl) (by rw [hp]; rfl) (c.taken_same rfl) ?_
    refine ⟨by rw [List.append_nil]; exact hat.1, ?_⟩
    rcases hat.2 with hf | hraised | ha
    · exact Or.inl hf
    · exact absurd hraised hr
    · exact Or.inr ha

theorem work_waiting (h : Accounting c) (hp : c.worker.phase = .waiting) :
    Accounting (c.work now) := by
  have hat := h.phase
  rw [hp] at hat
  obtain ⟨hd, hf⟩ := hat
  cases hc : c.worker.signal.changed? with
  | some signal =>
    have hs : c.worker.step now c.world =
        ⟨{ c.worker with signal, phase := .stopped }, c.world, false⟩ := by
      unfold Worker.step
      rw [hp]
      dsimp only
      rw [hc]
    exact h.of_move hs rfl rfl (by rw [hp]; rfl) (by rw [hp]; rfl) (c.taken_same rfl) trivial
  | none =>
    -- a worker that waits on has not been let go of
    have hfin : c.finished = c.batches.length := by
      refine hf.resolve_right fun ha => ?_
      unfold Signal.changed? at hc
      rw [if_pos ha] at hc
      split at hc <;> cases hc
    obtain ⟨i, stream, hn⟩ : ∃ i stream, c.world.transport.next c.worker.stream = (i, stream) :=
      ⟨_, _, rfl⟩
    have ht : c.worker.take c.world = (i, { c.worker with stream }) := by
      unfold Worker.take
      rw [hn]
    cases i with
    | none =>
      have hs : c.worker.step now c.world = ⟨{ c.worker with stream }, c.world, true⟩ := by
        simp only [Worker.step, hp, hc, ht]
      have hnone := c.taken_nothing (w := { c.worker with stream }) hn (by simp)
      refine h.of_move hs rfl rfl (by rw [hp]; rfl) (by rw [hp]; rfl) hnone ?_
      rw [List.append_nil]
      exact hp ▸ ⟨hd, hf⟩
    | some i =>
    cases i with
    | closed =>
      have hs : c.worker.step now c.world =
          ⟨{ c.worker with stream, phase := .stopped }, c.world, false⟩ := by
        simp only [Worker.step, hp, hc, ht]
      exact h.of_move hs rfl rfl (by rw [hp]; rfl) (by rw [hp]; rfl)
        (c.taken_nothing hn (by simp)) trivial
    | failed e =>
      have hs : c.worker.step now c.world =
          ⟨{ c.worker with stream, phase := .failed e.message }, c.world, false⟩ := by
        simp only [Worker.step, hp, hc, ht]
      exact h.of_move hs rfl rfl (by rw [hp]; rfl) (by rw [hp]; rfl)
        (c.taken_nothing hn (by simp)) trivial
    | message m =>
      by_cases hl : largestBatch < c.worker.settings.batch.size
      · have hs : c.worker.step now c.world =
            ⟨{ c.worker with stream, phase := .panicked }, c.world, false⟩ := by
          simp only [Worker.step, hp, hc, ht, if_pos hl]
        exact h.of_move hs rfl rfl (by rw [hp]; rfl) (by rw [hp]; rfl) (c.taken_message hn) trivial
      · have hs : c.worker.step now c.world =
            ⟨{ c.worker with
                stream, phase := .filling [m] (now + c.worker.settings.batch.maxWait) },
              c.world, false⟩ := by
          simp only [Worker.step, hp, hc, ht, if_neg hl]
        refine h.of_move hs rfl rfl (by rw [hp]; rfl) (by rw [hp]; rfl) (c.taken_message hn) ?_
        exact ⟨hfin, by rw [hd]⟩

/-- A step that takes up a batch. -/
theorem of_begun (h : Accounting c) {batch : List RawMessage} {deadline : Nat} {w : Worker κ}
    {waits : Bool} (hp : c.worker.phase = .filling batch deadline)
    (hs : c.worker.step now c.world = ⟨w, c.world, waits⟩) (hw : w.phase = .attempting batch 0)
    (he : w.endpoint = c.worker.endpoint) (hv : w.service = c.worker.service)
    (ht : c.taken w = []) : Accounting (c.work now) := by
  have hat := h.phase
  rw [hp] at hat
  obtain ⟨hfin, hdel⟩ := hat
  have hcourse : c.work now = { c with
      worker := w
      batches := c.batches ++ [batch]
      handing := c.handingIn w.phase
      recorded := c.recordedIn c.world.log w.phase } := by
    unfold work
    rw [hs]
    dsimp only
    rw [ht, hp, hw]
    simp [begun, Course.ended]
  have hclosed : (c.batches ++ [batch]).take c.finished = c.closed := by
    unfold closed
    rw [hfin, List.take_left, List.take_length]
  have hflat : (c.batches ++ [batch]).flatten = c.delivered := by
    rw [hdel, List.flatten_append]
    simp
  rw [hcourse]
  refine ⟨⟨by rw [hv]; exact h.alone.pipeline, by rw [hv, he]; exact h.alone.publisher⟩,
    ?_, ?_, ?_, ?_, ?_⟩
  · rw [List.length_append]
    exact Nat.le_trans h.finished (Nat.le_add_right _ _)
  · change (c.batches ++ [batch]).flatten <+: c.delivered
    exact ⟨[], by rw [List.append_nil, hflat]⟩
  · intro o
    unfold acknowledgedOffsets closed
    rw [hclosed, he]
    exact h.acknowledged o
  · intro m hm
    unfold Accounts
    rw [he]
    unfold Course.acknowledged closed at hm
    rw [hclosed] at hm
    exact h.accounted m hm
  · dsimp only
    rw [hw]
    exact ⟨hflat.symm, c.batches, batch, rfl, hfin, .refl _ _⟩

theorem work_filling (h : Accounting c) {batch : List RawMessage} {deadline : Nat}
    (hp : c.worker.phase = .filling batch deadline) : Accounting (c.work now) := by
  have hat := h.phase
  rw [hp] at hat
  obtain ⟨hfin, hdel⟩ := hat
  by_cases hsize : c.worker.settings.batch.size ≤ batch.length
  · have hs : c.worker.step now c.world =
        ⟨{ c.worker with phase := .attempting batch 0 }, c.world, false⟩ := by
      simp only [Worker.step, hp, if_pos hsize]
    exact h.of_begun hp hs rfl rfl rfl (c.taken_same rfl)
  cases hc : c.worker.signal.changed? with
  | some signal =>
    have hs : c.worker.step now c.world =
        ⟨{ c.worker with signal, phase := .attempting batch 0 }, c.world, false⟩ := by
      simp only [Worker.step, hp, if_neg hsize, hc]
    exact h.of_begun hp hs rfl rfl rfl (c.taken_same rfl)
  | none =>
  obtain ⟨i, stream, hn⟩ : ∃ i stream, c.world.transport.next c.worker.stream = (i, stream) :=
    ⟨_, _, rfl⟩
  have ht : c.worker.take c.world = (i, { c.worker with stream }) := by
    unfold Worker.take
    rw [hn]
  cases i with
  | none =>
    by_cases hdue : deadline ≤ now
    · have hs : c.worker.step now c.world =
          ⟨{ c.worker with stream, phase := .attempting batch 0 }, c.world, false⟩ := by
        simp only [Worker.step, hp, if_neg hsize, hc, ht, if_pos hdue]
      exact h.of_begun hp hs rfl rfl rfl (c.taken_nothing hn (by simp))
    · have hs : c.worker.step now c.world = ⟨{ c.worker with stream }, c.world, true⟩ := by
        simp only [Worker.step, hp, if_neg hsize, hc, ht, if_neg hdue]
      have hnone := c.taken_nothing (w := { c.worker with stream }) hn (by simp)
      refine h.of_move hs rfl rfl (by rw [hp]; rfl) (by rw [hp]; rfl) hnone ?_
      rw [List.append_nil]
      exact hp ▸ ⟨hfin, hdel⟩
  | some i =>
  cases i with
  | closed =>
    have hs : c.worker.step now c.world =
        ⟨{ c.worker with stream, phase := .attempting batch 0 }, c.world, false⟩ := by
      simp only [Worker.step, hp, if_neg hsize, hc, ht]
    exact h.of_begun hp hs rfl rfl rfl (c.taken_nothing hn (by simp))
  | failed e =>
    have hs : c.worker.step now c.world =
        ⟨{ c.worker with stream, phase := .failed e.message }, c.world, false⟩ := by
      simp only [Worker.step, hp, if_neg hsize, hc, ht]
    exact h.of_move hs rfl rfl (by rw [hp]; rfl) (by rw [hp]; rfl)
      (c.taken_nothing hn (by simp)) trivial
  | message m =>
    have hs : c.worker.step now c.world =
        ⟨{ c.worker with stream, phase := .filling (batch ++ [m]) deadline }, c.world, false⟩ := by
      simp only [Worker.step, hp, if_neg hsize, hc, ht]
    refine h.of_move hs rfl rfl (by rw [hp]; rfl) (by rw [hp]; rfl) (c.taken_message hn) ?_
    exact ⟨hfin, by simp [hdel]⟩

theorem work_pausing (h : Accounting c) {batch : List RawMessage} {failed : UInt32}
    {deadline : Nat} (hp : c.worker.phase = .pausing batch failed deadline) :
    Accounting (c.work now) := by
  have hat := h.phase
  rw [hp] at hat
  cases hc : c.worker.signal.changed? with
  | some signal =>
    have hs : c.worker.step now c.world =
        ⟨{ c.worker with signal, phase := .ready }, c.world, false⟩ := by
      simp only [Worker.step, hp, hc]
    refine h.of_move hs rfl rfl (by rw [hp]; rfl) (by rw [hp]; rfl) (c.taken_same rfl) ?_
    refine ⟨by rw [List.append_nil]; exact hat.1, Or.inr ?_⟩
    -- the wait ended because somebody raised the signal or nobody can any more
    unfold Signal.changed? at hc
    split at hc
    · next hr =>
      cases hc
      rw [Bool.and_eq_true] at hr
      exact Or.inl hr.1
    · split at hc
      · next ha => cases hc; exact Or.inr ha
      · cases hc
  | none =>
    by_cases hdue : deadline ≤ now
    · have hs : c.worker.step now c.world =
          ⟨{ c.worker with phase := .attempting batch failed }, c.world, false⟩ := by
        simp only [Worker.step, hp, hc, if_pos hdue]
      refine h.of_move hs rfl rfl (by rw [hp]; rfl) (by rw [hp]; rfl) (c.taken_same rfl) ?_
      rw [List.append_nil]
      exact hat
    · have hs : c.worker.step now c.world = ⟨c.worker, c.world, true⟩ := by
        simp only [Worker.step, hp, hc, if_neg hdue]
      refine h.of_move hs rfl rfl (by rw [hp]; rfl) (by rw [hp]; rfl) (c.taken_same rfl) ?_
      rw [List.append_nil]
      exact h.phase

/-! ## Steps that process a batch -/

/-- A step that loses no account, and acknowledges nothing, while a batch is in progress. -/
theorem of_kept (h : Accounting c) {p : Phase κ} {world : World κ} {waits : Bool}
    (hs : c.worker.step now c.world = ⟨{ c.worker with phase := p }, world, waits⟩)
    (hk : Kept c.worker.endpoint.name c.world world)
    (hb : begun c.worker.phase p = []) (hf : Course.ended c.worker.phase p = 0)
    (hp : AtPhase { c with worker := { c.worker with phase := p }, world } p) :
    Accounting (c.work now) := by
  have hcourse : c.work now = { c with
      worker := { c.worker with phase := p }
      world
      handing := c.handingIn p
      recorded := c.recordedIn world.log p } := by
    unfold work
    rw [hs]
    dsimp only
    rw [c.taken_same (w := { c.worker with phase := p }) rfl, hb, hf, List.append_nil,
      List.append_nil, Nat.add_zero]
  rw [hcourse]
  refine ⟨⟨h.alone.pipeline, h.alone.publisher⟩, h.finished, h.delivered, ?_, ?_, hp⟩
  · intro o
    unfold acknowledgedOffsets
    rw [hk.acknowledged]
    exact h.acknowledged o
  · intro m hm
    exact (h.accounted m hm).mono hk.covers

/-- A step that closes the batch in progress. -/
theorem of_closed (h : Accounting c) {batch : List RawMessage} {world : World κ} {waits : Bool}
    (hat : c.AtBatch batch)
    (hs : c.worker.step now c.world = ⟨{ c.worker with phase := .ready }, world, waits⟩)
    (hk : Closed c.worker.endpoint batch c.world world)
    (hb : begun c.worker.phase .ready = []) (hf : Course.ended c.worker.phase .ready = 1) :
    Accounting (c.work now) := by
  have hcourse : c.work now = { c with
      worker := { c.worker with phase := .ready }
      world
      finished := c.finished + 1
      handing := []
      recorded := c.recordedIn world.log .ready } := by
    unfold work
    rw [hs]
    dsimp only
    rw [c.taken_same (w := { c.worker with phase := .ready }) rfl, hb, hf, List.append_nil,
      List.append_nil]
    rfl
  obtain ⟨hdel, done, original, hbatches, hfin, hstands⟩ := hat
  have hnow : c.closed = done := by
    unfold closed
    rw [hbatches, hfin, List.take_left]
  have hall : c.batches.take (c.finished + 1) = done ++ [original] := by
    rw [hbatches, hfin, List.take_of_length_le (by simp)]
  have hflat : (done ++ [original]).flatten = done.flatten ++ original := by simp
  have hlen : c.finished + 1 = c.batches.length := by
    rw [hbatches, hfin, List.length_append]
    rfl
  rw [hcourse]
  refine ⟨⟨h.alone.pipeline, h.alone.publisher⟩, Nat.le_of_eq hlen, h.delivered, ?_, ?_,
    ⟨hdel, Or.inl hlen⟩⟩
  · intro o
    unfold acknowledgedOffsets closed
    dsimp only
    have hoff : Attempt.offsets (done.flatten ++ original) =
        Attempt.offsets done.flatten ++ Attempt.offsets original := List.filterMap_append
    have hbefore := h.acknowledged o
    unfold acknowledgedOffsets at hbefore
    rw [hall, hflat, hoff, List.mem_append, hk.acknowledged, hbefore, hnow, hstands.offsets,
      or_assoc]
  · intro m hm
    unfold Course.acknowledged closed at hm
    dsimp only at hm
    rw [hall, hflat, ← List.append_assoc, List.mem_append] at hm
    rcases hm with hm | hm
    · have hm : m ∈ c.acknowledged := by
        unfold Course.acknowledged
        rwa [hnow]
      exact (h.accounted m hm).mono hk.covers
    · exact hstands.accounted _ _ hk.accounted m hm

/-- A step of an attempt, whatever it comes to. -/
theorem of_upshot (h : Accounting c) {batch : List RawMessage} {p : Phase κ} {world : World κ}
    {waits : Bool} (hat : c.AtBatch batch)
    (hs : c.worker.step now c.world = ⟨{ c.worker with phase := p }, world, waits⟩)
    (hphase : (∃ n, c.worker.phase = .attempting batch n) ∨
      ∃ n tx flow, c.worker.phase = .dispatching batch n tx flow)
    (hu : Upshot c.worker.endpoint batch c.world p world) : Accounting (c.work now) := by
  have hb : begun c.worker.phase p = [] := by
    rcases hphase with ⟨n, hp⟩ | ⟨n, tx, flow, hp⟩ <;> rw [hp] <;> rfl
  have hmarked : ∀ n, { c with worker := { c.worker with phase := p }, world }.AtBatch
      (Attempt.marked n batch) := by
    intro n
    obtain ⟨hdel, done, original, hbatches, hfin, hstands⟩ := hat
    exact ⟨hdel, done, original, hbatches, hfin, hstands.marked n⟩
  have hf : p ≠ .ready → Course.ended c.worker.phase p = 0 := by
    intro hne
    rcases hphase with ⟨n, hp⟩ | ⟨n, tx, flow, hp⟩ <;> rw [hp] <;> cases p <;>
      first | rfl | exact absurd rfl hne
  cases hu with
  | closed hk =>
    have hone : Course.ended c.worker.phase .ready = 1 := by
      rcases hphase with ⟨n, hp⟩ | ⟨n, tx, flow, hp⟩ <;> rw [hp] <;> rfl
    exact h.of_closed hat hs hk hb hone
  | failed reason hk => exact h.of_kept hs hk hb (hf (by simp)) trivial
  | panicked hk => exact h.of_kept hs hk hb (hf (by simp)) trivial
  | again n hk => exact h.of_kept hs hk hb (hf (by simp)) (hmarked n)
  | later n d hk => exact h.of_kept hs hk hb (hf (by simp)) (hmarked n)
  | dispatching n hk hsound ha hflow =>
    exact h.of_kept hs hk hb (hf (by simp)) ⟨hat, hsound, ha, hflow⟩

theorem work_attempting (h : Accounting c) {batch : List RawMessage} {failed : UInt32}
    (hp : c.worker.phase = .attempting batch failed) : Accounting (c.work now) := by
  have hat := h.phase
  rw [hp] at hat
  have hs : c.worker.step now c.world =
      ⟨{ c.worker with phase := (c.worker.begin now batch failed c.world).1 },
        (c.worker.begin now batch failed c.world).2, false⟩ := by
    simp only [Worker.step, hp]
  exact h.of_upshot hat hs (Or.inl ⟨failed, hp⟩) (Worker.begin_upshot h.alone)

theorem work_dispatching (h : Accounting c) {batch : List RawMessage} {failed : UInt32}
    {tx : Transaction κ} {flow : Work (Scope κ) Published}
    (hp : c.worker.phase = .dispatching batch failed tx flow) : Accounting (c.work now) := by
  have hat := h.phase
  rw [hp] at hat
  obtain ⟨hat, hsound, ha, hflow⟩ := hat
  have hs : c.worker.step now c.world =
      ⟨{ c.worker with phase := (c.worker.proceed now batch failed tx flow c.world).1 },
        (c.worker.proceed now batch failed tx flow c.world).2.1,
        (c.worker.proceed now batch failed tx flow c.world).2.2⟩ := by
    simp only [Worker.step, hp]
  exact h.of_upshot hat hs (Or.inr ⟨failed, tx, flow, hp⟩) (Worker.proceed_upshot hsound ha hflow)

theorem work_ended (h : Accounting c) (hend : c.worker.isEnded = true) :
    Accounting (c.work now) := by
  have hs : c.worker.step now c.world = ⟨c.worker, c.world, true⟩ := by
    unfold Worker.isEnded at hend
    unfold Worker.step
    split at hend <;> simp_all
  have hb : begun c.worker.phase c.worker.phase = [] := by
    unfold Worker.isEnded at hend
    split at hend <;> simp_all [begun]
  have hf : Course.ended c.worker.phase c.worker.phase = 0 := by
    unfold Worker.isEnded at hend
    split at hend <;> simp_all [Course.ended]
  refine h.of_move hs rfl rfl hb hf (c.taken_same rfl) ?_
  rw [List.append_nil]
  exact h.phase

/-- A step of the worker. -/
theorem work (h : Accounting c) (now : Nat) : Accounting (c.work now) := by
  cases hp : c.worker.phase with
  | ready => exact h.work_ready hp
  | waiting => exact h.work_waiting hp
  | filling batch deadline => exact h.work_filling hp
  | attempting batch failed => exact h.work_attempting hp
  | dispatching batch failed tx flow => exact h.work_dispatching hp
  | pausing batch failed deadline => exact h.work_pausing hp
  | stopped => exact h.work_ended (by simp [Worker.isEnded, hp])
  | failed reason => exact h.work_ended (by simp [Worker.isEnded, hp])
  | panicked => exact h.work_ended (by simp [Worker.isEnded, hp])

/-! ## Steps around the worker -/

theorem others (h : Accounting c) {world : World κ}
    (hw : Aside c.worker.endpoint.name c.world world) : Accounting { c with world } where
  alone := h.alone
  finished := h.finished
  delivered := h.delivered
  acknowledged o := by
    unfold acknowledgedOffsets
    rw [hw.acknowledged]
    exact h.acknowledged o
  accounted m hm := by
    unfold Accounts
    rw [hw.log, hw.chunks]
    exact h.accounted m hm
  phase := by
    have hp := h.phase
    dsimp only at hp ⊢
    unfold AtPhase AtBatch at *
    dsimp only
    rw [hw.log, hw.chunks]
    exact hp

/-- The signal is never taken back. -/
theorem signal (h : Accounting c) {f : Signal → Signal}
    (hr : c.worker.signal.raised = true → (f c.worker.signal).raised = true)
    (ha : c.worker.signal.abandoned = true → (f c.worker.signal).abandoned = true) :
    Accounting (c.signal f) := by
  refine h.of_same rfl rfl rfl rfl rfl rfl rfl List.prefix_rfl ?_
  have hp := h.phase
  change AtPhase _ c.worker.phase
  cases hphase : c.worker.phase with
  | ready =>
    rw [hphase] at hp
    refine ⟨hp.1, ?_⟩
    rcases hp.2 with hf | hraised | hab
    · exact Or.inl hf
    · exact Or.inr (Or.inl (hr hraised))
    · exact Or.inr (Or.inr (ha hab))
  | waiting =>
    rw [hphase] at hp
    exact ⟨hp.1, hp.2.imp id ha⟩
  | _ =>
    rw [hphase] at hp
    exact hp

theorem renew (h : Accounting c) (stream : Subscription) : Accounting (c.renew stream) where
  alone := ⟨h.alone.pipeline, h.alone.publisher⟩
  finished := Nat.le_refl 0
  delivered := List.nil_prefix
  acknowledged o := by simp [Course.renew, acknowledgedOffsets, closed, Attempt.offsets]
  accounted m hm := by
    refine h.accounted m ?_
    simpa [Course.renew, Course.acknowledged, closed] using hm
  phase := ⟨rfl, Or.inl rfl⟩

/-- Every step keeps the invariant. -/
theorem step (h : Accounting c) {c' : Course κ} (hs : Step (Aside c.worker.endpoint.name) c c') :
    Accounting c' := by
  cases hs with
  | work now => exact h.work now
  | others hw => exact h.others hw
  | cancel => exact h.signal (fun _ => rfl) id
  | abandon => exact h.signal id fun _ => rfl
  | renew stream => exact h.renew stream

theorem steps {name : String} (h : Accounting c) (hn : c.worker.endpoint.name = name)
    {c' : Course κ} (hs : Steps (Aside name) c c') :
    Accounting c' ∧ c'.worker.endpoint = c.worker.endpoint ∧
      c'.worker.service = c.worker.service := by
  induction hs with
  | refl => exact ⟨h, rfl, rfl⟩
  | tail _ hs ih =>
    obtain ⟨ha, he, hv⟩ := ih
    subst hn
    rw [← he] at hs
    exact ⟨ha.step hs, hs.fixed.1.trans he, hs.fixed.2.trans hv⟩

/-- What was acknowledged stays acknowledged. -/
theorem acknowledged_step {R : World κ → World κ → Prop} (h : Accounting c) {c' : Course κ}
    (hs : Step R c c') : ∀ m ∈ c.acknowledged, m ∈ c'.acknowledged := by
  intro m hm
  cases hs with
  | work now =>
    unfold Course.acknowledged closed at *
    refine (List.mem_append.mp hm).elim (List.mem_append_left _) fun hm => ?_
    refine List.mem_append_right _ ?_
    have hsub : c.batches.take c.finished <+: (c.work now).batches.take (c.work now).finished := by
      have h1 : (c.work now).batches.take c.finished = c.batches.take c.finished :=
        List.take_append_of_le_length h.finished
      rw [← h1]
      exact List.take_prefix_take_left (Nat.le_add_right _ _)
    exact List.mem_flatten.mpr (by
      obtain ⟨b, hb, hmb⟩ := List.mem_flatten.mp hm
      exact ⟨b, hsub.subset hb, hmb⟩)
  | others => exact hm
  | cancel => exact hm
  | abandon => exact hm
  | renew => simpa [Course.renew, Course.acknowledged, closed] using hm

end Accounting

/-! ## Redelivery -/

/-- The message is of no effect to a transaction over the stores, whichever messages come before
it: the pipeline hands nothing on and settling settles nothing for it, and neither changes the
transaction. If it is readable, the pipeline refuses it only where a store refuses a look-up. -/
structure Redundant (c : Course κ) (m : RawMessage) : Prop where
  attempt : ∀ (before : List RawMessage) (out : List Message) (s : Inbox κ),
    Attempt.prepare c.worker.service.pipeline c.worker.endpoint before ⟨{}, c.world⟩ = .ok out s →
    (∀ out' t, Attempt.prepare c.worker.service.pipeline c.worker.endpoint [m] s = .ok out' t →
      out' = [] ∧ t.transaction = s.transaction) ∧
    ∀ e t, Attempt.prepare c.worker.service.pipeline c.worker.endpoint [m] s = .error e t →
      m.Readable → e.Refused
  settle : ∀ (before settled : List RawMessage) (s : Inbox κ),
    Settlement.many c.worker.endpoint before ⟨{}, c.world⟩ = .ok settled s →
    ∀ settled' t, Settlement.many c.worker.endpoint [m] s = .ok settled' t →
      t.transaction = s.transaction ∧
        ((∃ id, m.headers.get? Headers.messageId = some id) → settled' = [])

namespace Accounting

variable {c : Course κ}

/-- What is accounted for in the stores is accounted for in every transaction over them. -/
theorem taken_accounts {m : RawMessage} (ha : c.Accounts m) {ms : List RawMessage}
    {tx : Transaction κ}
    (h : TakenIn c.world.log c.world.chunks c.worker.endpoint {} ms tx) :
    tx.Accounts c.worker.endpoint.name c.world.log c.world.chunks m :=
  Accounted.mono ha (((Transaction.sound_empty _).view_covers _ _).trans h.covers)

theorem redundant (h : Accounting c) {m : RawMessage} (ha : c.Accounts m) : c.Redundant m := by
  refine ⟨?_, ?_⟩
  · intro before out s hbefore
    rw [h.alone.pipeline] at hbefore ⊢
    obtain ⟨htaken, hs⟩ := Attempt.prepare_ok hbefore
    have hacc : s.transaction.Accounts c.worker.endpoint.name s.world.log s.world.chunks m := by
      rw [hs.log, hs.chunks]
      exact taken_accounts ha htaken
    refine ⟨?_, ?_⟩
    · intro out' t hone
      obtain ⟨raw, u, h0, h1⟩ := bind_ok hone
      obtain ⟨hraw, rfl⟩ := Inbound.ofExcept_ok.mp h0
      obtain ⟨first, v, hfirst, h2⟩ := bind_ok h1
      obtain ⟨rest, x, hrest, h3⟩ := bind_ok h2
      cases hrest
      cases h3
      obtain ⟨-, o, hin, -, ho⟩ := Pipeline.process_ok hfirst
      obtain ⟨rfl, htx⟩ := hin.ignored hraw hacc
      rw [ho]
      exact ⟨rfl, htx⟩
    · rintro e t hone ⟨⟨id, hid⟩, position, hread⟩
      rcases bind_error hone with h0 | ⟨raw, u, h0, h1⟩
      · obtain ⟨⟨e', hraw, -⟩, -⟩ := Inbound.ofExcept_error.mp h0
        rw [Settlement.ofMessage_error hraw] at hid
        cases hid
      obtain ⟨hraw, rfl⟩ := Inbound.ofExcept_ok.mp h0
      rcases bind_error h1 with hfirst | ⟨first, v, -, h2⟩
      · exact Pipeline.process_refused hraw hread hacc hfirst
      · cases h2
  · intro before settled s hbefore settled' t hone
    obtain ⟨htaken, hs⟩ := Settlement.many_ok hbefore
    have hacc : s.transaction.Accounts c.worker.endpoint.name s.world.log s.world.chunks m := by
      rw [hs.log, hs.chunks]
      exact taken_accounts ha htaken
    obtain ⟨first, v, hfirst, h2⟩ := bind_ok hone
    obtain ⟨rest, x, hrest, h3⟩ := bind_ok h2
    cases hrest
    cases h3
    obtain ⟨-, hm⟩ := Settlement.one_ok hfirst
    cases hraw : RawEnvelope.ofMessage c.worker.endpoint m with
    | error e =>
      rw [hraw] at hm
      refine ⟨by rw [hm.2], fun ⟨id, hid⟩ => ?_⟩
      rw [Settlement.ofMessage_error hraw] at hid
      cases hid
    | ok raw =>
      rw [hraw] at hm
      obtain ⟨o, hin, rfl⟩ := hm
      obtain ⟨rfl, htx⟩ := hin.ignored hraw hacc
      exact ⟨htx, fun _ => rfl⟩

/-- A batch of messages that are accounted for hands nothing on and leaves its transaction as it
began. -/
theorem prepare_redundant (h : Accounting c) {ms : List RawMessage} (ha : ∀ m ∈ ms, c.Accounts m)
    {out : List Message} {s t : Inbox κ} (hs : Alike c.world s.world) (htx : s.transaction = {})
    (hp : Attempt.prepare c.worker.service.pipeline c.worker.endpoint ms s = .ok out t) :
    out = [] ∧ t.transaction = {} ∧ Alike c.world t.world := by
  rw [h.alone.pipeline] at hp
  induction ms generalizing out s with
  | nil =>
    cases hp
    exact ⟨rfl, htx, hs⟩
  | cons m ms ih =>
    obtain ⟨raw, first, rest, v, hraw, hfirst, hrest, rfl⟩ := Attempt.prepare_cons_ok hp
    obtain ⟨-, o, hin, hv, ho⟩ := Pipeline.process_ok hfirst
    have hacc : s.transaction.Accounts c.worker.endpoint.name s.world.log s.world.chunks m := by
      rw [hs.log, hs.chunks, htx]
      exact Accounted.mono (ha m List.mem_cons_self)
        ((Transaction.sound_empty _).view_covers _ _)
    obtain ⟨rfl, htx'⟩ := hin.ignored hraw hacc
    obtain ⟨rfl, htx'', hx⟩ := ih (fun m hm => ha m (List.mem_cons_of_mem _ hm)) (hs.trans hv)
      (htx'.trans htx) hrest
    rw [ho]
    exact ⟨rfl, htx'', hx⟩

end Accounting

/-- **Acknowledged means accounted for.** In every state that a consumer reaches which alone uses
its log and its chunk store, the batches that were brought to their end come first among the
batches, the batches follow each other in what was delivered, and the acknowledged offsets are
those of the former; every message of them is accounted for; and in every later state it is of no
effect to a transaction, and a transaction of such messages only leaves the stores as they are. -/
theorem acknowledged_accounted {w : Worker κ} (hw : w.Alone) (world : World κ) {c c' : Course κ}
    (hc : Steps (Aside w.endpoint.name) (start w world) c)
    (hc' : Steps (Aside w.endpoint.name) c c') :
    (c.closed <+: c.batches ∧ c.batches.flatten <+: c.delivered ∧
      ∀ o, o ∈ c.acknowledgedOffsets ↔ o ∈ c.base ∨ o ∈ Attempt.offsets c.closed.flatten) ∧
    (∀ m ∈ c.acknowledged, c.Accounts m) ∧
    (∀ m ∈ c.acknowledged, c'.Redundant m) ∧
    ∀ ms, (∀ m ∈ ms, m ∈ c.acknowledged) → ∀ out t,
      Attempt.prepare c'.worker.service.pipeline c'.worker.endpoint ms ⟨{}, c'.world⟩ =
        .ok out t →
      out = [] ∧ ∀ u, t.transaction.commit c'.worker.service.wire t.world = .ok () u →
        u.log = c'.world.log ∧ u.chunks = c'.world.chunks := by
  obtain ⟨h, he, -⟩ := (accounting_start hw world).steps rfl hc
  have hname : c.worker.endpoint.name = w.endpoint.name := congrArg Endpoint.name he
  obtain ⟨h', -, -⟩ := h.steps hname hc'
  have hlater : ∀ m ∈ c.acknowledged, c'.Accounts m := by
    intro m hm
    refine h'.accounted m ?_
    clear h'
    induction hc' with
    | refl => exact hm
    | @tail c₁ c₂ hsteps hs ih => exact (h.steps hname hsteps).1.acknowledged_step hs m ih
  refine ⟨⟨List.take_prefix _ _, h.delivered, h.acknowledged⟩, h.accounted, ?_, ?_⟩
  · intro m hm
    exact h'.redundant (hlater m hm)
  · intro ms hms out t hp
    obtain ⟨hout, htx, ht⟩ := h'.prepare_redundant (fun m hm => hlater m (hms m hm))
      (Std.Refl.refl _) rfl hp
    refine ⟨hout, fun u hu => ?_⟩
    rw [htx] at hu
    cases hu
    exact ⟨ht.log, ht.chunks⟩

/-! ### A message in one piece and a parked chunk -/

/-- The first of two chunks. -/
def firstChunk : RawMessage :=
  ⟨[7], ⟨[(Headers.messageId, "s"), (Headers.chunkIndex, "0"), (Headers.chunksCount, "2")]⟩,
    some "1"⟩

/-- A consumer of batches of two. Its handler fails the first time, and the batch is tried again. -/
def parking : Worker Unit where
  endpoint := ⟨"orders", none, []⟩
  settings := { batch := { size := 2 }, policy := some (.retry ⟨2, 0, 0⟩) }
  service := noted 1
  stream := ⟨"orders", [ping "a" "0", firstChunk, ping "b" "2"], 0, 0, false⟩

theorem parking_alone : parking.Alone where
  pipeline := noted_pipeline 1
  publisher := noted_keeps (R := Scope.Aside "orders") (fun _ => ⟨rfl, rfl, rfl⟩) 1

/-- The consumer after two attempts at its first batch, when a third message has been delivered. -/
def parked : Course Unit := Nat.iterate (work 0) 10 (start parking emptyWorld)

/-- The first two messages are acknowledged, of which one went through the handler and the other is
parked. Delivered again in another order, they have no effect. -/
theorem acknowledged_accounted_parked :
    Steps (Aside "orders") (start parking emptyWorld) parked ∧
      parked.delivered = [ping "a" "0", firstChunk, ping "b" "2"] ∧
      parked.acknowledged = [ping "a" "0", firstChunk] ∧ parked.acknowledgedOffsets = ["0", "1"] ∧
      parked.world.notes.length = 2 ∧
      parked.world.log.items = [⟨"a", "orders"⟩] ∧
      parked.world.chunks.items = [⟨"s", 0, 2, [7]⟩] ∧
      (∀ m ∈ parked.acknowledged, parked.Accounts m ∧ parked.Redundant m) ∧
      ∃ out t u, Attempt.prepare parked.worker.service.pipeline parked.worker.endpoint
          [firstChunk, ping "a" "0"] ⟨{}, parked.world⟩ = .ok out t ∧
        t.transaction.commit parked.worker.service.wire t.world = .ok () u ∧
        out = [] ∧ u.log = parked.world.log ∧ u.chunks = parked.world.chunks := by
  have hsteps : Steps (Aside "orders") (start parking emptyWorld) parked := steps_iterate _ 0 10
  obtain ⟨-, hacc, hred, hagain⟩ := acknowledged_accounted parking_alone emptyWorld hsteps .refl
  have hms : ∀ m ∈ [firstChunk, ping "a" "0"], m ∈ parked.acknowledged :=
    fun m hm => List.mem_reverse.mpr hm
  obtain ⟨out, t, hprepare⟩ : ∃ out t, Attempt.prepare parked.worker.service.pipeline
      parked.worker.endpoint [firstChunk, ping "a" "0"] ⟨{}, parked.world⟩ = .ok out t := ⟨_, _, rfl⟩
  obtain ⟨u, hcommit⟩ : ∃ u, t.transaction.commit parked.worker.service.wire t.world = .ok () u := by
    cases hprepare
    exact ⟨_, rfl⟩
  obtain ⟨hout, hstores⟩ := hagain _ hms _ _ hprepare
  exact ⟨hsteps, rfl, rfl, rfl, rfl, rfl, rfl, fun m hm => ⟨hacc m hm, hred m hm⟩,
    out, t, u, hprepare, hcommit, hout, hstores u hcommit⟩

end Course

end Relay
