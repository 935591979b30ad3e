import Relay.Proofs.Consumer.BatchLoop
/-!
# Cancellation of a consumer

A consumer is told to stop at some moment of its course: between two batches, while it waits for a
first message or for more, during an attempt or while it waits out a delay. `Winds` lists what its
worker can still do, and `Trail.Onward` is any number of such steps, with steps of others in between.

A wait notices the signal only once. A worker that is told to stop while it waits for more messages
notices it there, and waits out the delays that come after (`cancelled_unnoticed`). At any other
moment, an attempt that is in progress or due is all that is left (`Phase.due`).

Results:
- `Trail.winding`: nothing more is taken from the stream, and what is still tried is the batch that
  the worker had.
- `Trail.cancelled`: that batch gets one attempt at most, and where it should be tried again the
  worker stops instead, with nothing acknowledged.
-/
namespace Relay

open World (Silent)

variable {κ : Type}

namespace Signal

variable {s s' : Signal}

/-- A signal that has been raised ends the next wait for it. -/
theorem changed?_raised (hr : s.raised = true) (hs : s.seen = false) :
    s.changed? = some { s with seen := true } := by
  unfold changed?
  rw [hr, hs]
  rfl

theorem changed?_same (h : s.changed? = some s') : s'.raised = s.raised := by
  unfold changed? at h
  split at h
  · cases h
    rfl
  · split at h
    · cases h
      rfl
    · cases h

/-- A signal that was not raised stays unnoticed. -/
theorem changed?_fresh (h : s.changed? = some s') (hs : s.raised = false → s.seen = false) :
    s'.raised = false → s'.seen = false := by
  unfold changed? at h
  split at h
  · next hr =>
    cases h
    intro hr'
    rw [show s.raised = false from hr'] at hr
    cases hr
  · split at h
    · cases h
      exact hs
    · cases h

end Signal

/-! ## What a phase holds -/

/-- The batches are the same but for the number of failures in their headers. -/
def Attempt.SameBatch (b batch : List RawMessage) : Prop := marked 0 b = marked 0 batch

theorem Attempt.SameBatch.refl (batch : List RawMessage) : SameBatch batch batch :=
  Eq.refl (marked 0 batch)

theorem Attempt.SameBatch.trans {b b' batch : List RawMessage} (h : SameBatch b b')
    (h' : SameBatch b' batch) : SameBatch b batch := Eq.trans h h'

theorem Attempt.SameBatch.marked {b batch : List RawMessage} (h : SameBatch b batch) (k : UInt32) :
    SameBatch (marked k b) batch := by
  unfold SameBatch
  rw [marked_marked]
  exact h

namespace Phase

/-- The batch that a worker in the phase has in hand or collects. -/
def collected : Phase κ → List RawMessage
  | .filling batch _ => batch
  | p => p.inHand

/-- Whether a worker in the phase waits for messages. -/
def listens : Phase κ → Bool
  | .waiting => true
  | .filling .. => true
  | _ => false

/-- The number of attempts that are in progress, or that are due for a batch not yet tried. -/
def due : Phase κ → Nat
  | .filling .. => 1
  | .attempting .. => 1
  | .dispatching .. => 1
  | _ => 0

theorem Released.due {p : Phase κ} (h : p.Released) : p.due = 0 := by
  cases p with
  | filling | attempting | dispatching => cases h
  | _ => rfl

theorem Released.collects {p : Phase κ} (h : p.Released) : p.listens = false := by
  cases p with
  | waiting | filling => cases h
  | _ => rfl

end Phase

namespace Worker

variable {w w' : Worker κ} {now : Nat} {world world' : World κ} {a : Option (Tried κ)}

theorem listens_eq : w.listens = w.phase.listens := by
  unfold listens Phase.listens
  cases w.phase <;> rfl

/-- The worker waits for more messages of a batch. -/
def HasRoom (w : Worker κ) : Prop :=
  ∃ batch deadline, w.phase = .filling batch deadline ∧ batch.length < w.settings.batch.size

/-- What follows an attempt: another one at its batch, at once or after a pause, or no more. -/
theorem resolve_cases (now : Nat) (a : Tried κ) :
    (a.Again w.settings.policy (a.failed.toNat + 1) ∧ (w.resolve now a).2 = a.world ∧
      ((w.resolve now a).1 = .attempting (Attempt.marked (a.failed + 1) a.batch) (a.failed + 1) ∨
        ∃ deadline, (w.resolve now a).1 =
          .pausing (Attempt.marked (a.failed + 1) a.batch) (a.failed + 1) deadline)) ∨
    (¬ a.Again w.settings.policy (a.failed.toNat + 1) ∧ (w.resolve now a).1.Released) := by
  by_cases ha : a.Again w.settings.policy (a.failed.toNat + 1)
  · obtain ⟨hworld, hnext⟩ := resolve_again now rfl ha
    rw [← next_failed rfl] at hnext
    exact Or.inl ⟨ha, hworld, hnext⟩
  · exact Or.inr ⟨ha, resolve_last rfl ha⟩

theorem resolve_listens (now : Nat) (a : Tried κ) : (w.resolve now a).1.listens = false := by
  rcases w.resolve_cases now a with ⟨-, -, hnext | ⟨deadline, hnext⟩⟩ | ⟨-, hr⟩
  · rw [hnext]; rfl
  · rw [hnext]; rfl
  · exact hr.collects

theorem resolve_inHand (now : Nat) (a : Tried κ) (hb : (w.resolve now a).1.isBusy = true) :
    Attempt.SameBatch (w.resolve now a).1.inHand a.batch := by
  rcases w.resolve_cases now a with ⟨-, -, hnext | ⟨deadline, hnext⟩⟩ | ⟨-, hr⟩
  · rw [hnext]
    exact (Attempt.SameBatch.refl a.batch).marked (a.failed + 1)
  · rw [hnext]
    exact (Attempt.SameBatch.refl a.batch).marked (a.failed + 1)
  · rw [hr.idle] at hb
    cases hb

/-- The policy has a pause before every attempt that repeats one. -/
def Pauses (w : Worker κ) : Prop :=
  ∀ n delay, Policy.decideWith w.settings.policy n = .ok (.retry delay) → delay ≠ 0

/-- An attempt that is to be repeated is followed by a pause. -/
theorem Pauses.resolve (h : w.Pauses) (now : Nat) {a : Tried κ}
    (ha : a.Again w.settings.policy (a.failed.toNat + 1)) :
    ∃ b k deadline, (w.resolve now a).1 = .pausing b k deadline := by
  obtain ⟨e, delay, he, hfatal, hd⟩ := ha
  rw [resolve_error he, giveWay_decided hfatal (next_failed rfl) hd]
  dsimp only
  rw [if_neg (h _ _ hd)]
  exact ⟨_, _, _, rfl⟩

/-! ## Before the signal -/

theorem take_stream {i : Option Item} (h : w.take world = (i, w')) :
    ∃ stream, w' = { w with stream } := by
  cases h
  exact ⟨_, rfl⟩

/-- A step leaves the signal as it was, unless a wait for it has ended. -/
theorem step_signal (now : Nat) (world : World κ) :
    (w.step now world).worker.signal = w.signal ∨
      w.signal.changed? = some (w.step now world).worker.signal := by
  unfold step
  repeat' split
  all_goals first
    | exact Or.inl rfl
    | exact Or.inr ‹_›
    | obtain ⟨stream, rfl⟩ := take_stream ‹w.take world = _›
      exact Or.inl rfl

theorem Turn.along {R : World κ → World κ → Prop} {S : Scope κ → Scope κ → Prop} [Std.Refl R]
    [IsTrans (World κ) R] [Std.Refl S] [IsTrans (Scope κ) S] (hw : w.Along R S)
    (hp : w.phase.Along R S) (h : w.Turn now world w' world' a) : w'.phase.Along R S := by
  cases h with
  | @ended b k tx u v h =>
    rcases w.resolve_cases now (w.closes b k tx u v) with ⟨-, -, hnext | ⟨d, hnext⟩⟩ | ⟨-, hr⟩
    · rw [hnext]; trivial
    · rw [hnext]; trivial
    · exact hr.along
  | launched hb hprep =>
    exact ⟨((hw.prepare _).ok hprep).resources Transaction.along_empty, hw.publisher _⟩
  | @polled _ _ tx flow _ _ hb hpoll =>
    rw [hb] at hp
    obtain ⟨htx, hflow⟩ := hp
    have hk := (hflow.poll now ⟨world, some tx.outbox⟩).2
    rw [hpoll] at hk
    exact ⟨htx, hk⟩
  | panicked | stopped | woken => trivial
  | waiting => exact hp

/-- A step keeps what goes on of a publish along `R` and `S`. -/
theorem step_along {R : World κ → World κ → Prop} {S : Scope κ → Scope κ → Prop} [Std.Refl R]
    [IsTrans (World κ) R] [Std.Refl S] [IsTrans (Scope κ) S] (hw : w.Along R S)
    (h : w.phase.Along R S) (now : Nat) (world : World κ) :
    (w.step now world).worker.phase.Along R S := by
  by_cases hb : w.phase.isBusy = true
  · exact (turn now world hb).along hw h
  · unfold step
    split
    case h_4 hphase | h_5 hphase | h_6 hphase => exact absurd (by rw [hphase]; rfl) hb
    all_goals
      repeat' split
      all_goals first
        | trivial
        | obtain ⟨stream, rfl⟩ := take_stream ‹w.take world = _›
          trivial

/-! ## After the signal -/

/-- Everything that a step of a cancelled worker can do. -/
inductive Winds (w : Worker κ) (now : Nat) (world : World κ) :
    Worker κ → World κ → Option (Tried κ) → Prop
  /-- It goes on with the attempts at its batch. -/
  | busy {v u a} (hbusy : w.phase.isBusy = true) (h : w.Turn now world v u a) :
    Winds w now world v u a
  /-- It begins no further batch. -/
  | idle (hphase : w.phase = .ready) : Winds w now world { w with phase := .stopped } world none
  /-- The wait for a first message is broken off. -/
  | unfilled {signal} (hphase : w.phase = .waiting) (hsignal : w.signal.changed? = some signal) :
    Winds w now world { w with signal, phase := .stopped } world none
  | full {batch deadline} (hphase : w.phase = .filling batch deadline)
    (hsize : w.settings.batch.size ≤ batch.length) :
    Winds w now world { w with phase := .attempting batch 0 } world none
  /-- The wait for more messages is broken off. -/
  | filled {batch deadline signal} (hphase : w.phase = .filling batch deadline)
    (hsize : batch.length < w.settings.batch.size) (hsignal : w.signal.changed? = some signal) :
    Winds w now world { w with signal, phase := .attempting batch 0 } world none
  | ended (hphase : w.isEnded = true) : Winds w now world w world none

/-- **What a step of a cancelled worker does**, while it has not noticed the signal or waits for no
message. -/
theorem winds (hr : w.signal.raised = true) (hs : w.listens = true → w.signal.seen = false)
    (now : Nat) (world : World κ) :
    w.Winds now world (w.step now world).worker (w.step now world).world (w.tried? now world) := by
  cases hphase : w.phase with
  | attempting | dispatching | pausing =>
    have hbusy : w.phase.isBusy = true := by rw [hphase]; rfl
    exact .busy hbusy (turn now world hbusy)
  | ready =>
    have hstep : w.step now world = { worker := { w with phase := .stopped }, world } := by
      simp only [step, hphase, hr, if_true]
    have hnone : w.tried? now world = none := by simp only [tried?, hphase]
    rw [hstep, hnone]
    exact .idle hphase
  | waiting =>
    have hsignal := Signal.changed?_raised hr (hs (by rw [listens_eq, hphase]; rfl))
    have hnone : w.tried? now world = none := by simp only [tried?, hphase]
    simp only [step, hphase, hsignal, hnone]
    exact .unfilled hphase hsignal
  | filling batch deadline =>
    have hsignal := Signal.changed?_raised hr (hs (by rw [listens_eq, hphase]; rfl))
    have hnone : w.tried? now world = none := by simp only [tried?, hphase]
    simp only [step, hphase, hsignal, hnone]
    split
    · next hsize => exact .full hphase hsize
    · next hsize => exact .filled hphase (Nat.lt_of_not_le hsize) hsignal
  | stopped | failed | panicked =>
    have hnone : w.tried? now world = none := by simp only [tried?, hphase]
    simp only [step, hphase, hnone]
    exact .ended (by simp only [isEnded, hphase])

/-- What becomes of the batch in a step of a busy worker. -/
theorem Turn.keeps (h : w.Turn now world w' world' a) :
    w'.stream = w.stream ∧ w'.signal.raised = w.signal.raised ∧ w'.listens = false ∧
      (∀ x, a = some x → x.batch = w.phase.inHand) ∧
      (w'.phase.isBusy = true → Attempt.SameBatch w'.phase.inHand w.phase.inHand) := by
  cases h with
  | @ended b k tx u v h =>
    have hin : (w.closes b k tx u v).batch = w.phase.inHand := by
      rw [(w.closes_batch b k tx u v).1]
      cases h with
      | refused hb | nothing hb | published hb => rw [hb]; rfl
    refine ⟨rfl, rfl, listens_eq.trans (w.resolve_listens now _), fun x hx => by cases hx; exact hin,
      fun hbusy => ?_⟩
    exact (hin ▸ w.resolve_inHand now _ hbusy :)
  | launched hb | polled hb | woken hb =>
    refine ⟨rfl, rfl, rfl, fun _ hx => (by cases hx), fun _ => ?_⟩
    rw [hb]
    exact .refl _
  | panicked => exact ⟨rfl, rfl, rfl, fun _ hx => (by cases hx), fun hbusy => (by cases hbusy)⟩
  | stopped hb hsignal =>
    have hraised := Signal.changed?_same hsignal
    exact ⟨rfl, hraised, rfl, fun _ hx => (by cases hx), fun hbusy => (by cases hbusy)⟩
  | waiting hb => exact ⟨rfl, rfl, by rw [listens_eq, hb]; rfl, fun _ hx => (by cases hx), fun _ => .refl _⟩

end Worker

namespace Trail

/-- One step of a worker, busy or not, or along `R` of others. -/
inductive Onward (R : World κ → World κ → Prop) : Trail κ → Trail κ → Prop
  | work (now : Nat) (t : Trail κ) : Onward R t (t.work now)
  | others {t : Trail κ} {world : World κ} (h : R t.world world) : Onward R t { t with world }
  | abandon (t : Trail κ) : Onward R t (t.signal .abandon)

end Trail

/-- The worker when it is told to stop, with no attempt that was over before. -/
def Course.cancelled (c : Course κ) : Trail κ where
  worker := { c.worker with signal := c.worker.signal.raise }
  world := c.world

namespace Trail

variable {R : World κ → World κ → Prop} {c : Course κ} {t t' : Trail κ}

/-- What holds of a worker from the signal on: it takes no more messages, and what it still tries is
the batch that it had. -/
structure Winding (c : Course κ) (t : Trail κ) : Prop where
  same : t.Same c.worker
  stream : t.worker.stream = c.worker.stream
  raised : t.worker.signal.raised = true
  unseen : t.worker.listens = true →
    t.worker.signal.seen = false ∧ t.worker.phase = c.worker.phase
  tried : ∀ a ∈ t.tried, Attempt.SameBatch a.batch c.worker.phase.collected
  inHand : t.worker.phase.isBusy = true →
    Attempt.SameBatch t.worker.phase.inHand c.worker.phase.collected

theorem winding_cancelled (hs : c.worker.signal.seen = false) : Winding c c.cancelled where
  same := ⟨rfl, rfl, rfl⟩
  stream := rfl
  raised := rfl
  unseen _ := ⟨hs, rfl⟩
  tried _ h := by cases h
  inHand h := by
    cases hphase : c.worker.phase with
    | filling => simp [Course.cancelled, hphase, Phase.isBusy] at h
    | _ => simp only [Course.cancelled, hphase, Phase.collected]; rfl

theorem Winding.winds {now : Nat} {w' : Worker κ} {world' : World κ} {a : Option (Tried κ)}
    (h : Winding c t) (hw : t.worker.Winds now t.world w' world' a) :
    Winding c ⟨w', world', t.tried ++ a.toList⟩ := by
  have hnone : t.tried ++ (none : Option (Tried κ)).toList = t.tried := List.append_nil _
  cases hw with
  | busy hbusy hturn =>
    obtain ⟨he, hset, hv⟩ := hturn.fixed
    obtain ⟨hstream, hraised, hlistens, hin, hnext⟩ := hturn.keeps
    refine ⟨⟨he.trans h.same.1, hset.trans h.same.2, hv.trans h.same.3⟩, hstream.trans h.stream,
      hraised.trans h.raised, fun hl => ?_, fun x hx => ?_, fun hb => ?_⟩
    · rw [hlistens] at hl
      cases hl
    · rcases List.mem_append.mp hx with hx | hx
      · exact h.tried x hx
      · rw [hin x (Option.mem_toList.mp hx)]
        exact h.inHand hbusy
    · exact (hnext hb).trans (h.inHand hbusy)
  | idle =>
    rw [hnone]
    exact ⟨⟨h.same.1, h.same.2, h.same.3⟩, h.stream, h.raised, nofun, h.tried, nofun⟩
  | unfilled _ hsignal =>
    have hraised := (Signal.changed?_same hsignal).trans h.raised
    rw [hnone]
    exact ⟨⟨h.same.1, h.same.2, h.same.3⟩, h.stream, hraised, nofun, h.tried, nofun⟩
  | full hphase =>
    have hin := (h.unseen (by rw [Worker.listens_eq, hphase]; rfl)).2
    rw [hnone]
    refine ⟨⟨h.same.1, h.same.2, h.same.3⟩, h.stream, h.raised, nofun, h.tried, fun _ => ?_⟩
    rw [← hin, hphase]
    exact .refl _
  | filled hphase _ hsignal =>
    have hraised := (Signal.changed?_same hsignal).trans h.raised
    have hin := (h.unseen (by rw [Worker.listens_eq, hphase]; rfl)).2
    rw [hnone]
    refine ⟨⟨h.same.1, h.same.2, h.same.3⟩, h.stream, hraised, nofun, h.tried, fun _ => ?_⟩
    rw [← hin, hphase]
    exact .refl _
  | ended =>
    rw [hnone]
    exact h

theorem Winding.step (h : Winding c t) (hs : Onward R t t') : Winding c t' := by
  cases hs with
  | others | abandon =>
    exact ⟨⟨h.same.1, h.same.2, h.same.3⟩, h.stream, h.raised, h.unseen, h.tried, h.inHand⟩
  | work now => exact h.winds (Worker.winds h.raised (fun hl => (h.unseen hl).1) now t.world)

/-- **After the signal no batch is begun**, in every state that the worker reaches. -/
theorem winding (hs : c.worker.signal.seen = false)
    (ht : Relation.ReflTransGen (Onward R) c.cancelled t) : Winding c t := by
  induction ht with
  | refl => exact winding_cancelled hs
  | tail _ hs ih => exact ih.step hs

/-! ## The last attempt -/

/-- The worker is about to stop: it is between two batches, or it has not noticed the signal and
waits for a first message or for the time of an attempt. -/
def Leaving (t : Trail κ) : Prop :=
  t.worker.signal.raised = true ∧
    (t.worker.phase = .ready ∨ t.worker.phase = .stopped ∨
      t.worker.signal.seen = false ∧
        (t.worker.phase = .waiting ∨ ∃ b k deadline, t.worker.phase = .pausing b k deadline))

/-- Two more steps, whenever they are taken, stop the worker, and do nothing else. -/
def Stops (t : Trail κ) : Prop :=
  ∀ now later, ((t.work now).work later).worker.phase = .stopped ∧
    ((t.work now).work later).world = t.world ∧ ((t.work now).work later).tried = t.tried

/-- A step of the worker that ends no attempt and leaves the world alone. -/
theorem work_quiet {now : Nat} {w : Worker κ} {waits : Bool}
    (hstep : t.worker.step now t.world = ⟨w, t.world, waits⟩)
    (hnone : t.worker.tried? now t.world = none) : t.work now = { t with worker := w } := by
  unfold work
  rw [hstep, hnone]
  exact congrArg (Trail.mk w t.world) (List.append_nil t.tried)

theorem work_stopped (now : Nat) (h : t.worker.phase = .stopped) : t.work now = t :=
  work_quiet (by simp only [Worker.step, h]; rfl) (by simp only [Worker.tried?, h])

theorem work_ready (now : Nat) (h : t.worker.phase = .ready) (hr : t.worker.signal.raised = true) :
    t.work now = { t with worker := { t.worker with phase := .stopped } } :=
  work_quiet (by simp only [Worker.step, h, hr, if_true]; rfl) (by simp only [Worker.tried?, h])

theorem work_waiting (now : Nat) {signal : Signal} (h : t.worker.phase = .waiting)
    (hs : t.worker.signal.changed? = some signal) :
    t.work now = { t with worker := { t.worker with signal, phase := .stopped } } :=
  work_quiet (by simp only [Worker.step, h, hs]; rfl) (by simp only [Worker.tried?, h])

theorem work_pausing (now : Nat) {signal : Signal} {b : List RawMessage} {k : UInt32}
    {deadline : Nat} (h : t.worker.phase = .pausing b k deadline)
    (hs : t.worker.signal.changed? = some signal) :
    t.work now = { t with worker := { t.worker with signal, phase := .ready } } :=
  work_quiet (by simp only [Worker.step, h, hs]; rfl) (by simp only [Worker.tried?, h])

/-- A step of a worker that is about to stop. -/
theorem Leaving.work (h : t.Leaving) (now : Nat) :
    (t.work now).worker.signal.raised = true ∧
      ((t.work now).worker.phase = .ready ∨ (t.work now).worker.phase = .stopped) ∧
      (t.work now).world = t.world ∧ (t.work now).tried = t.tried := by
  obtain ⟨hr, hphase | hphase | ⟨hs, hphase | ⟨b, k, deadline, hphase⟩⟩⟩ := h
  · rw [work_ready now hphase hr]
    exact ⟨hr, Or.inr rfl, rfl, rfl⟩
  · rw [work_stopped now hphase]
    exact ⟨hr, Or.inr hphase, rfl, rfl⟩
  · rw [work_waiting now hphase (Signal.changed?_raised hr hs)]
    exact ⟨hr, Or.inr rfl, rfl, rfl⟩
  · rw [work_pausing now hphase (Signal.changed?_raised hr hs)]
    exact ⟨hr, Or.inl rfl, rfl, rfl⟩

theorem Leaving.stops (h : t.Leaving) : t.Stops := by
  intro now later
  obtain ⟨hr, hphase | hphase, hworld, htried⟩ := h.work now
  · rw [work_ready later hphase hr]
    exact ⟨rfl, hworld, htried⟩
  · rw [work_stopped later hphase]
    exact ⟨hphase, hworld, htried⟩

/-- Where a worker stands that was told to stop while it did not wait for more messages. -/
inductive Cut (c : Course κ) (t : Trail κ) : Prop
  /-- No attempt is over yet, and the signal is not noticed. -/
  | pending (hseen : t.worker.signal.seen = false) (htried : t.tried = [])
    (halong : t.worker.phase.Along (Silent c.worker.endpoint.name)
      (Scope.Silent c.worker.endpoint.name))
    (hdue : t.worker.phase.due ≤ c.worker.phase.due)
    (hsame : c.worker.phase.due = 0 → t.worker.phase = c.worker.phase ∨ t.worker.phase = .stopped)
    (hworld : Silent c.worker.endpoint.name c.world t.world)
  /-- There was no attempt, or it should have been repeated. -/
  | leaving (hleaving : t.Leaving) (hdue : t.tried.length ≤ c.worker.phase.due)
    (hworld : Silent c.worker.endpoint.name c.world t.world)
  /-- The attempt has ended the batch. -/
  | ended (hphase : t.worker.phase.Released) (hne : t.tried ≠ [])
    (hdue : t.tried.length ≤ c.worker.phase.due)
    (hlast : ∀ a ∈ t.tried, ¬ a.Again c.worker.settings.policy (a.failed.toNat + 1))

namespace Cut

variable {now : Nat} {w' : Worker κ} {world' : World κ} {a : Option (Tried κ)}

theorem start (hs : c.worker.signal.seen = false)
    (halong : c.worker.phase.Along (Silent c.worker.endpoint.name)
      (Scope.Silent c.worker.endpoint.name)) : Cut c c.cancelled :=
  .pending hs rfl halong (Nat.le_refl _) (fun _ => Or.inl rfl) (Std.Refl.refl c.world)

/-- A step of an attempt. -/
theorem turn (hw : c.worker.Tacit) (hpause : c.worker.Pauses) (hwind : Winding c t)
    (hbusy : t.worker.phase.due = 1) (hseen : t.worker.signal.seen = false) (htried : t.tried = [])
    (halong : t.worker.phase.Along (Silent c.worker.endpoint.name)
      (Scope.Silent c.worker.endpoint.name))
    (hdue : t.worker.phase.due ≤ c.worker.phase.due)
    (hworld : Silent c.worker.endpoint.name c.world t.world)
    (h : t.worker.Turn now t.world w' world' a) : Cut c ⟨w', world', t.tried ++ a.toList⟩ := by
  have hw' := hw.along.of_service hwind.same.service
  rw [hbusy] at hdue
  have hpositive : ¬ c.worker.phase.due = 0 := Nat.one_le_iff_ne_zero.mp hdue
  have halong' := h.along hw' halong
  rw [htried, List.nil_append]
  cases h with
  | @ended b k tx u v h =>
    obtain ⟨htx, hu⟩ := h.keeps hw' halong
    by_cases hagain : (t.worker.closes b k tx u v).Again t.worker.settings.policy
      ((t.worker.closes b k tx u v).failed.toNat + 1)
    · have hpause' : t.worker.Pauses := by
        unfold Worker.Pauses
        rw [hwind.same.settings]
        exact hpause
      obtain ⟨b', k', deadline, hphase⟩ := hpause'.resolve now hagain
      refine .leaving ⟨hwind.raised, Or.inr (Or.inr ⟨hseen, Or.inr ⟨b', k', deadline, hphase⟩⟩)⟩ hdue ?_
      change Silent _ _ (t.worker.resolve now (t.worker.closes b k tx u v)).2
      rw [(Worker.resolve_again now rfl hagain).1]
      exact IsTrans.trans _ _ _ (IsTrans.trans _ _ _ hworld hu) (Worker.closes_silent htx v)
    · refine .ended (Worker.resolve_last rfl hagain) (List.cons_ne_nil _ _) hdue fun x hx => ?_
      rw [List.mem_singleton.mp hx, ← hwind.same.settings]
      exact hagain
  | launched hb hprep =>
    have hs := ((hw'.prepare _).ok hprep).world
    exact .pending hseen rfl halong' hdue (absurd · hpositive) (IsTrans.trans _ _ _ hworld hs)
  | @polled _ _ tx flow flow' s hb hpoll =>
    rw [hb] at halong
    have hs := (halong.2.poll now ⟨t.world, some tx.outbox⟩).1
    rw [hpoll] at hs
    exact .pending hseen rfl halong' hdue (absurd · hpositive) (IsTrans.trans _ _ _ hworld hs)
  | @panicked _ _ tx flow text s hb hpoll =>
    rw [hb] at halong
    have hs := (halong.2.poll now ⟨t.world, some tx.outbox⟩).1
    rw [hpoll] at hs
    exact .pending hseen rfl trivial (Nat.zero_le _) (absurd · hpositive)
      (IsTrans.trans _ _ _ hworld hs)
  | stopped hb | woken hb | waiting hb =>
    rw [hb] at hbusy
    cases hbusy

/-- A step of a worker that has not tried its batch and does not wait to repeat an attempt. -/
theorem first (hw : c.worker.Tacit) (hpause : c.worker.Pauses) (hroom : ¬ c.worker.HasRoom)
    (hwind : Winding c t) (hseen : t.worker.signal.seen = false) (htried : t.tried = [])
    (hpausing : ∀ b k deadline, t.worker.phase ≠ .pausing b k deadline)
    (halong : t.worker.phase.Along (Silent c.worker.endpoint.name)
      (Scope.Silent c.worker.endpoint.name))
    (hdue : t.worker.phase.due ≤ c.worker.phase.due)
    (hsame : c.worker.phase.due = 0 → t.worker.phase = c.worker.phase ∨ t.worker.phase = .stopped)
    (hworld : Silent c.worker.endpoint.name c.world t.world)
    (h : t.worker.Winds now t.world w' world' a) : Cut c ⟨w', world', t.tried ++ a.toList⟩ := by
  have hnone : t.tried ++ (none : Option (Tried κ)).toList = [] := by rw [htried]; rfl
  cases h with
  | busy hbusy hturn =>
    have hone : t.worker.phase.due = 1 := by
      cases hphase : t.worker.phase with
      | attempting | dispatching => rfl
      | pausing b k deadline => exact absurd hphase (hpausing b k deadline)
      | _ => rw [hphase] at hbusy; cases hbusy
    exact turn hw hpause hwind hone hseen htried halong hdue hworld hturn
  | idle =>
    exact .pending hseen hnone trivial (Nat.zero_le _) (fun _ => Or.inr rfl) hworld
  | unfilled _ hsignal =>
    have hraised := (Signal.changed?_same hsignal).trans hwind.raised
    refine .leaving ⟨hraised, Or.inr (Or.inl rfl)⟩ ?_ hworld
    rw [hnone]
    exact Nat.zero_le _
  | full hphase =>
    rw [hphase] at hdue
    have hpositive : ¬ c.worker.phase.due = 0 := Nat.one_le_iff_ne_zero.mp hdue
    exact .pending hseen hnone trivial hdue (absurd · hpositive) hworld
  | filled hphase hsize =>
    obtain ⟨-, hsame'⟩ := hwind.unseen (by rw [Worker.listens_eq, hphase]; rfl)
    rw [hwind.same.settings] at hsize
    exact absurd ⟨_, _, hsame'.symm.trans hphase, hsize⟩ hroom
  | ended => exact .pending hseen hnone halong hdue hsame hworld

/-- A step of a worker that has let go of its batch. -/
theorem last (hphase : t.worker.phase.Released) (hne : t.tried ≠ [])
    (hdue : t.tried.length ≤ c.worker.phase.due)
    (hlast : ∀ a ∈ t.tried, ¬ a.Again c.worker.settings.policy (a.failed.toNat + 1))
    (h : t.worker.Winds now t.world w' world' a) : Cut c ⟨w', world', t.tried ++ a.toList⟩ := by
  have hnone : t.tried ++ (none : Option (Tried κ)).toList = t.tried := List.append_nil _
  cases h with
  | busy hbusy =>
    rw [hphase.idle] at hbusy
    cases hbusy
  | idle =>
    rw [hnone]
    exact .ended trivial hne hdue hlast
  | unfilled hb | full hb | filled hb =>
    rw [hb] at hphase
    cases hphase
  | ended =>
    rw [hnone]
    exact .ended hphase hne hdue hlast

/-- A step of the worker. -/
theorem work (hw : c.worker.Tacit) (hpause : c.worker.Pauses) (hroom : ¬ c.worker.HasRoom)
    (hwind : Winding c t) (h : Cut c t) (now : Nat) : Cut c (t.work now) := by
  have hwinds := Worker.winds hwind.raised (fun hl => (hwind.unseen hl).1) now t.world
  cases h with
  | pending hseen htried halong hdue hsame hworld =>
    by_cases hpausing : ∃ b k deadline, t.worker.phase = .pausing b k deadline
    · -- the pause is not waited out
      obtain ⟨b, k, deadline, hphase⟩ := hpausing
      rw [work_pausing now hphase (Signal.changed?_raised hwind.raised hseen)]
      refine .leaving ⟨hwind.raised, Or.inl rfl⟩ ?_ hworld
      rw [htried]
      exact Nat.zero_le _
    · exact first hw hpause hroom hwind hseen htried
        (fun b k deadline hphase => hpausing ⟨b, k, deadline, hphase⟩) halong hdue hsame hworld hwinds
  | leaving hleaving hdue hworld =>
    obtain ⟨hr, hphase, hworld', htried⟩ := hleaving.work now
    refine .leaving ⟨hr, hphase.imp_right Or.inl⟩ ?_ ?_
    · rw [htried]
      exact hdue
    · rw [hworld']
      exact hworld
  | ended hphase hne hdue hlast => exact last hphase hne hdue hlast hwinds

theorem step (hw : c.worker.Tacit) (hpause : c.worker.Pauses) (hroom : ¬ c.worker.HasRoom)
    (hwind : Winding c t) (h : Cut c t) (hs : Onward (Silent c.worker.endpoint.name) t t') :
    Cut c t' := by
  cases hs with
  | work now => exact h.work hw hpause hroom hwind now
  | others hr =>
    cases h with
    | pending hseen htried halong hdue hsame hworld =>
      exact .pending hseen htried halong hdue hsame (IsTrans.trans _ _ _ hworld hr)
    | leaving hleaving hdue hworld =>
      exact .leaving hleaving hdue (IsTrans.trans _ _ _ hworld hr)
    | ended hphase hne hdue hlast => exact .ended hphase hne hdue hlast
  | abandon =>
    cases h with
    | pending hseen htried halong hdue hsame hworld =>
      exact .pending hseen htried halong hdue hsame hworld
    | leaving hleaving hdue hworld => exact .leaving hleaving hdue hworld
    | ended hphase hne hdue hlast => exact .ended hphase hne hdue hlast

/-- A worker that had no attempt before it is about to stop. -/
theorem unbegun (hwind : Winding c t) (hseen : t.worker.signal.seen = false)
    (hsame : t.worker.phase = c.worker.phase ∨ t.worker.phase = .stopped)
    (hdue : c.worker.phase.due = 0) (hend : c.worker.isEnded = false) : t.Leaving := by
  refine ⟨hwind.raised, ?_⟩
  rcases hsame with hphase | hphase
  · unfold Worker.isEnded at hend
    cases hc : c.worker.phase with
    | ready => exact Or.inl (hphase.trans hc)
    | waiting => exact Or.inr (Or.inr ⟨hseen, Or.inl (hphase.trans hc)⟩)
    | pausing b k deadline => exact Or.inr (Or.inr ⟨hseen, Or.inr ⟨b, k, deadline, hphase.trans hc⟩⟩)
    | filling | attempting | dispatching => rw [hc] at hdue; cases hdue
    | stopped | failed | panicked => rw [hc] at hend; cases hend
  · exact Or.inr (Or.inl hphase)

theorem bounds (hwind : Winding c t) (h : Cut c t) :
    t.tried.length + t.worker.phase.due ≤ c.worker.phase.due ∧
      (c.worker.phase.due = 0 ∧ c.worker.isEnded = false ∨
          (∃ a ∈ t.tried, a.Again c.worker.settings.policy (a.failed.toNat + 1)) →
        Silent c.worker.endpoint.name c.world t.world ∧ t.Stops) := by
  cases h with
  | pending hseen htried halong hdue hsame hworld =>
    refine ⟨?_, fun hstops => ⟨hworld, ?_⟩⟩
    · rw [htried, List.length_nil, Nat.zero_add]
      exact hdue
    · rcases hstops with ⟨hnone, hend⟩ | ⟨a, ha, -⟩
      · exact (unbegun hwind hseen (hsame hnone) hnone hend).stops
      · rw [htried] at ha
        cases ha
  | leaving hleaving hdue hworld =>
    have hzero : t.worker.phase.due = 0 := by
      rcases hleaving.2 with hphase | hphase | ⟨-, hphase | ⟨b, k, deadline, hphase⟩⟩
      all_goals rw [hphase]; rfl
    exact ⟨by rw [hzero]; exact hdue, fun _ => ⟨hworld, hleaving.stops⟩⟩
  | ended hphase hne hdue hlast =>
    refine ⟨by rw [hphase.due]; exact hdue, fun hstops => ?_⟩
    rcases hstops with ⟨hnone, -⟩ | ⟨a, ha, hagain⟩
    · rw [hnone, Nat.le_zero, List.length_eq_zero_iff] at hdue
      exact absurd hdue hne
    · exact absurd hagain (hlast a ha)

end Cut

end Trail

/-! ## Runs -/

namespace Course

variable {R : World κ → World κ → Prop} {c c' : Course κ}

/-- What holds of a worker until it is told to stop: it has not noticed a signal, and an attempt in
progress acknowledges nothing. -/
structure Poised (c : Course κ) : Prop where
  tacit : c.worker.Tacit
  fresh : c.worker.signal.raised = false → c.worker.signal.seen = false
  along : c.worker.phase.Along (Silent c.worker.endpoint.name)
    (Scope.Silent c.worker.endpoint.name)

theorem Poised.step (h : Poised c) (hs : Step R c c') : Poised c' := by
  obtain ⟨he, hv⟩ := hs.fixed
  have htacit : c'.worker.Tacit := by
    refine ⟨?_, ?_⟩
    · rw [hv, he]; exact h.tacit.pipeline
    · rw [hv, he]; exact h.tacit.publisher
  cases hs with
  | work now =>
    refine ⟨htacit, ?_, ?_⟩
    · rcases c.worker.step_signal now c.world with hsame | hchanged
      · change (c.worker.step now c.world).worker.signal.raised = false →
          (c.worker.step now c.world).worker.signal.seen = false
        rw [hsame]
        exact h.fresh
      · exact Signal.changed?_fresh hchanged h.fresh
    · rw [he]
      exact Worker.step_along h.tacit.along h.along now c.world
  | others => exact ⟨htacit, h.fresh, h.along⟩
  | cancel => exact ⟨htacit, nofun, h.along⟩
  | abandon => exact ⟨htacit, h.fresh, h.along⟩
  | renew => exact ⟨htacit, fun _ => rfl, trivial⟩

theorem poised {w : Worker κ} (hw : w.Tacit) (world : World κ) (hc : Steps R (start w world) c) :
    Poised c := by
  induction hc with
  | refl => exact ⟨⟨hw.pipeline, hw.publisher⟩, fun _ => rfl, trivial⟩
  | tail _ hs ih => exact ih.step hs

end Course

namespace Trail

open Course (emptyWorld)

/-- **Cancellation cuts retries short**, for every state `c` that a worker has reached when it is
told to stop and every state `t` that it reaches after. It takes nothing more from its stream and
begins no batch; what it still tries is the batch that it had. Unless it was told to stop while it
waited for more messages of a batch, there is one attempt at most, and none that was not in progress
or due. If there was none, or it failed and should be repeated, nothing is acknowledged, and
whenever the worker goes on it does nothing but stop. -/
theorem cancelled {w : Worker κ} (hw : w.Tacit) (world : World κ) {R : World κ → World κ → Prop}
    {c : Course κ} (hc : Course.Steps R (Course.start w world) c)
    (hraised : c.worker.signal.raised = false) (hpause : c.worker.Pauses) {t : Trail κ}
    (ht : Relation.ReflTransGen (Onward (Silent c.worker.endpoint.name)) c.cancelled t) :
    Winding c t ∧
      (¬ c.worker.HasRoom →
        t.tried.length + t.worker.phase.due ≤ c.worker.phase.due ∧
        (c.worker.phase.due = 0 ∧ c.worker.isEnded = false ∨
            (∃ a ∈ t.tried, a.Again c.worker.settings.policy (a.failed.toNat + 1)) →
          Silent c.worker.endpoint.name c.world t.world ∧ t.Stops)) := by
  have hpoised := Course.poised hw world hc
  have hseen := hpoised.fresh hraised
  refine ⟨winding hseen ht, fun hroom => ?_⟩
  have hcut : Cut c t := by
    induction ht with
    | refl => exact .start hseen hpoised.along
    | tail ht hs ih => exact ih.step hpoised.tacit hpause hroom (winding hseen ht) hs
  exact hcut.bounds (winding hseen ht)

/-! ### A handler that goes on failing -/

open Course (ping noted noted_pipeline noted_keeps)

/-- A consumer of batches of the size that tries one up to three times, five seconds apart. Its
handler fails each time. -/
def patient (size : Nat) : Worker Unit where
  endpoint := ⟨"orders", none, []⟩
  settings := { batch := { size }, policy := some (.chain [.retry ⟨3, 5000, 0⟩, .skip]) }
  service := noted 100
  stream := ⟨"orders", [ping "a" "0"], 0, 0, false⟩

theorem patient_tacit (size : Nat) : (patient size).Tacit where
  pipeline := ⟨[], noted_pipeline 100, fun _ h => absurd h List.not_mem_nil⟩
  publisher := noted_keeps (R := Scope.Silent "orders") (fun _ => ⟨rfl, rfl⟩) 100

theorem patient_pauses (size : Nat) : (patient size).Pauses := by
  have hlimit : ¬ durationLimit ≤ 5000 := by decide
  intro n delay hd
  simp only [patient, Policy.decideWith, Policy.decide, Policy.decideFirst, Policy.canHandle,
    RetryPolicy.delay, Nat.zero_mul, Nat.add_zero, Nat.not_le.mpr (by decide : 0 < durationLimit),
    hlimit, if_false] at hd
  split at hd <;> simp_all [Except.map]
  omega

/-- The consumer when it has taken the message. -/
def taking (size : Nat) : Course Unit :=
  ((Course.start (patient size) emptyWorld).work 0).work 0

theorem taking_steps (size : Nat) :
    Course.Steps (Silent "orders") (Course.start (patient size) emptyWorld) (taking size) :=
  (Relation.ReflTransGen.single (.work 0 _)).tail (.work 0 _)

/-- The consumer when its batch of one message has gone to the handler. -/
def handling : Course Unit := ((taking 1).work 0).work 0

/-- It is told to stop while the handler runs. -/
def trying : Trail Unit := handling.cancelled.work 0

/-- The handler fails, which it has done once. The batch is not tried again, and stays
unacknowledged. -/
theorem cancelled_trying :
    (∃ b k tx flow, handling.worker.phase = .dispatching b k tx flow) ∧ handling.world.notes = [] ∧
      trying.tried.length = 1 ∧ trying.world.notes.length = 1 ∧
      (∃ b k, trying.worker.phase = .pausing b k 5000) ∧ Silent "orders" handling.world trying.world ∧
      trying.Stops := by
  have hc : Course.Steps (Silent "orders") (Course.start (patient 1) emptyWorld) handling :=
    ((taking_steps 1).tail (.work 0 _)).tail (.work 0 _)
  have hroom : ¬ handling.worker.HasRoom := fun ⟨_, _, hphase, _⟩ => by cases hphase
  obtain ⟨-, hcut⟩ := cancelled (patient_tacit 1) emptyWorld hc rfl (patient_pauses 1)
    (.single (.work 0 handling.cancelled))
  -- the attempt has failed, and should be repeated
  have hagain : ∃ a ∈ trying.tried, a.Again (patient 1).settings.policy (a.failed.toNat + 1) :=
    ⟨_, List.mem_singleton_self _, _, 5000, rfl, rfl, rfl⟩
  obtain ⟨-, hstops⟩ := hcut hroom
  obtain ⟨hsilent, hstops⟩ := hstops (Or.inr hagain)
  exact ⟨⟨_, _, _, _, rfl⟩, rfl, rfl, rfl, ⟨_, _, rfl⟩, hsilent, hstops⟩

/-- The consumer goes on at these times. -/
def onwardAt (times : List Nat) (t : Trail κ) : Trail κ := times.foldl (fun t now => t.work now) t

theorem onwardAt_onward {R : World κ → World κ → Prop} (times : List Nat) (t : Trail κ) :
    Relation.ReflTransGen (Onward R) t (onwardAt times t) := by
  induction times generalizing t with
  | nil => exact .refl
  | cons now times ih => exact .head (.work now t) (ih _)

/-- It is told to stop while it waits for another message, and goes on whenever it is due. -/
def unnoticed : Trail Unit :=
  onwardAt [0, 0, 0, 5000, 5000, 5000, 10000, 10000, 10000] (taking 2).cancelled

theorem cancelled_unnoticed :
    Course.Steps (Silent "orders") (Course.start (patient 2) emptyWorld) (taking 2) ∧
      (taking 2).worker.Pauses ∧ (taking 2).worker.phase = .filling [ping "a" "0"] 1000 ∧
      Relation.ReflTransGen (Onward (Silent "orders")) (taking 2).cancelled unnoticed ∧
      unnoticed.tried.length = 3 ∧ unnoticed.world.notes.length = 3 ∧
      (unnoticed.world.transport.topic "orders").acknowledged = ["0"] :=
  ⟨taking_steps 2, patient_pauses 2, rfl, onwardAt_onward _ _, rfl, rfl, rfl⟩

end Trail

end Relay
