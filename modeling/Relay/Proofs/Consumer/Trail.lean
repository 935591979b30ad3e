import Mathlib.Logic.Relation
import Relay.Consumer.Worker
import Relay.Proofs.Confinement
import Relay.Proofs.Flow
/-!
# The attempts at one batch

From the moment a worker takes a batch up until it lets go of it, it is busy with attempts at it.
`Turn` lists everything a step of a busy worker can do. An attempt is brought to its end by the
pipeline or by the publish, then its transaction is committed or rolled back (`closes`), and how
that came out decides what follows (`resolve`). A `Trail` keeps the attempts that are over beside the
worker and the world; `Trail.Step R` is a step of the worker, of others along `R`, or a
cancellation.
-/
namespace Relay

variable {κ : Type}

/-! ## Attempts that are over -/

/-- How an attempt came out. -/
inductive Tried.Outcome
  | committed
  /-- It failed and was rolled back. -/
  | failed (e : InboundError)
  /-- Its commit failed. -/
  | undone (e : StoreError)
  deriving DecidableEq, Repr

/-- The failure that the error policy is asked about. -/
def Tried.Outcome.error? : Tried.Outcome → Option InboundError
  | .committed => none
  | .failed e => some e
  | .undone e => some (.store e)

/-- An attempt that is over. -/
structure Tried (κ : Type) where
  /-- The batch as the attempt saw it. -/
  batch : List RawMessage
  /-- Failed attempts before it. -/
  failed : UInt32
  outcome : Tried.Outcome
  /-- What waited in its outbox in the end. -/
  outbox : List Outgoing
  /-- The world that its commit or its rollback left. -/
  world : World κ

theorem Signal.changed?_none {s : Signal} (hr : s.raised = false) (ha : s.abandoned = false) :
    s.changed? = none := by
  unfold changed?
  rw [hr, ha]
  rfl

theorem Signal.changed?_some {s s' : Signal} (h : s.changed? = some s') :
    s'.raised = true ∨ s'.abandoned = true := by
  unfold changed? at h
  split at h
  · next hr =>
    cases h
    exact Or.inl (Bool.and_eq_true_iff.mp hr).1
  · split at h
    · next ha =>
      cases h
      exact Or.inr ha
    · cases h

/-- Whether a worker in the phase is busy with a batch that it has taken up. -/
def Phase.isBusy : Phase κ → Bool
  | .attempting .. => true
  | .dispatching .. => true
  | .pausing .. => true
  | _ => false

/-- Whether a worker in the phase is between two batches. -/
def Phase.isReady : Phase κ → Bool
  | .ready => true
  | _ => false

theorem Phase.isReady_iff {p : Phase κ} : p.isReady = true ↔ p = .ready := by
  cases p <;> simp [isReady]

/-- A worker in the phase has let go of its batch, and awaits none. -/
def Phase.Released : Phase κ → Prop
  | .ready => True
  | .stopped => True
  | .failed _ => True
  | .panicked => True
  | _ => False

theorem Phase.Released.idle {p : Phase κ} (h : p.Released) : p.isBusy = false := by
  cases p with
  | attempting | dispatching | pausing => cases h
  | _ => rfl

/-- The batch that a busy worker has in hand. -/
def Phase.inHand : Phase κ → List RawMessage
  | .attempting batch _ => batch
  | .dispatching batch .. => batch
  | .pausing batch .. => batch
  | _ => []

namespace Worker

/-- The end of an attempt: its transaction is rolled back for a failure, and else committed. -/
def closes (w : Worker κ) (batch : List RawMessage) (failed : UInt32) (tx : Transaction κ)
    (world : World κ) : Option InboundError → Tried κ
  | some e => ⟨batch, failed, .failed e, tx.outbox, ((tx.rollback w.service.wire).exec world).2⟩
  | none =>
    match (tx.commit w.service.wire).exec world with
    | (.ok _, world) => ⟨batch, failed, .committed, tx.outbox, world⟩
    | (.error e, world) => ⟨batch, failed, .undone e, tx.outbox, world⟩

/-- What follows an attempt that is over. -/
def resolve (w : Worker κ) (now : Nat) (a : Tried κ) : Phase κ × World κ :=
  match a.outcome.error? with
  | some e => w.giveWay now a.batch a.failed e a.world
  | none =>
    let r := ((Attempt.acknowledge w.endpoint a.batch).mapError TransportError.message).exec a.world
    (finished r.1, r.2)

/-- How the publish of an attempt came out. -/
def failure : Published → Option InboundError
  | .ok _ => none
  | .error e => some (.dispatch e)

/-- The attempt that a step brings to its end, if it does so. -/
def tried? (w : Worker κ) (now : Nat) (world : World κ) : Option (Tried κ) :=
  match w.phase with
  | .attempting batch failed =>
    match Attempt.prepare w.service.pipeline w.endpoint batch ⟨{}, world⟩ with
    | .error e s => some (w.closes batch failed s.transaction s.world (some e))
    | .ok [] s => some (w.closes batch failed s.transaction s.world none)
    | .ok _ _ => none
  | .dispatching batch failed tx flow =>
    match flow.poll now ⟨world, some tx.outbox⟩ with
    | (.done r, s) =>
      some (w.closes batch failed { tx with outbox := s.outbox.getD [] } s.world (failure r))
    | _ => none
  | _ => none

variable {w : Worker κ} {now : Nat} {batch : List RawMessage} {failed : UInt32}
  {tx : Transaction κ} {world : World κ}

theorem closes_committed {u : World κ} (h : tx.commit w.service.wire world = .ok () u) :
    w.closes batch failed tx world none = ⟨batch, failed, .committed, tx.outbox, u⟩ := by
  unfold closes
  rw [Op.exec_ok.mpr h]

theorem closes_undone {e : StoreError} {u : World κ}
    (h : tx.commit w.service.wire world = .error e u) :
    w.closes batch failed tx world none = ⟨batch, failed, .undone e, tx.outbox, u⟩ := by
  unfold closes
  rw [Op.exec_error.mpr h]

/-- An attempt that has failed was rolled back. -/
theorem closes_failed {v : Option InboundError} {e : InboundError}
    (h : (w.closes batch failed tx world v).outcome = .failed e) :
    (w.closes batch failed tx world v).world = endState (tx.rollback w.service.wire) world := by
  cases v with
  | some e' => exact Op.exec_world _ world
  | none =>
    unfold closes at h
    dsimp only at h
    split at h <;> cases h

theorem conclude_eq :
    w.conclude now batch failed tx world = w.resolve now (w.closes batch failed tx world none) := by
  unfold conclude closes
  split
  · next hx => rw [hx]; rfl
  · next hx => rw [hx]; rfl

/-! ## Steps of a busy worker -/

/-- An attempt that a step brings to its end: the pipeline has failed or nothing has come out of it,
or the publish has ended. -/
inductive Reaches (w : Worker κ) (now : Nat) (world : World κ) : List RawMessage → UInt32 →
    Transaction κ → World κ → Option InboundError → Prop
  | refused {batch failed e s} (hphase : w.phase = .attempting batch failed)
    (hp : Attempt.prepare w.service.pipeline w.endpoint batch ⟨{}, world⟩ = .error e s) :
    Reaches w now world batch failed s.transaction s.world (some e)
  | nothing {batch failed s} (hphase : w.phase = .attempting batch failed)
    (hp : Attempt.prepare w.service.pipeline w.endpoint batch ⟨{}, world⟩ = .ok [] s) :
    Reaches w now world batch failed s.transaction s.world none
  | published {batch failed tx flow r s} (hphase : w.phase = .dispatching batch failed tx flow)
    (hpoll : flow.poll now ⟨world, some tx.outbox⟩ = (.done r, s)) :
    Reaches w now world batch failed { tx with outbox := s.outbox.getD [] } s.world (failure r)

/-- Everything that a step of a busy worker can do. -/
inductive Turn (w : Worker κ) (now : Nat) (world : World κ) :
    Worker κ → World κ → Option (Tried κ) → Prop
  /-- An attempt is over. -/
  | ended {batch failed tx u v} (h : w.Reaches now world batch failed tx u v) :
    Turn w now world { w with phase := (w.resolve now (w.closes batch failed tx u v)).1 }
      (w.resolve now (w.closes batch failed tx u v)).2 (some (w.closes batch failed tx u v))
  /-- The publish of an attempt begins. -/
  | launched {batch failed m ms s} (hphase : w.phase = .attempting batch failed)
    (hp : Attempt.prepare w.service.pipeline w.endpoint batch ⟨{}, world⟩ = .ok (m :: ms) s) :
    Turn w now world { w with
      phase := .dispatching batch failed s.transaction (w.service.publisher.publish (m :: ms)) }
      s.world none
  /-- The publish goes on. -/
  | polled {batch failed tx flow flow' s} (hphase : w.phase = .dispatching batch failed tx flow)
    (hpoll : flow.poll now ⟨world, some tx.outbox⟩ = (flow', s)) :
    Turn w now world { w with
      phase := .dispatching batch failed { tx with outbox := s.outbox.getD [] } flow' } s.world none
  | panicked {batch failed tx flow text s} (hphase : w.phase = .dispatching batch failed tx flow)
    (hpoll : flow.poll now ⟨world, some tx.outbox⟩ = (.panicked text, s)) :
    Turn w now world { w with phase := .panicked } s.world none
  /-- The pause before the next attempt is broken off. -/
  | stopped {batch failed deadline signal} (hphase : w.phase = .pausing batch failed deadline)
    (hsignal : w.signal.changed? = some signal) :
    Turn w now world { w with signal, phase := .ready } world none
  /-- The pause is over. -/
  | woken {batch failed deadline} (hphase : w.phase = .pausing batch failed deadline)
    (hdue : deadline ≤ now) : Turn w now world { w with phase := .attempting batch failed } world none
  | waiting {batch failed deadline} (hphase : w.phase = .pausing batch failed deadline)
    (hdue : now < deadline) : Turn w now world w world none

theorem turn_attempting (hphase : w.phase = .attempting batch failed) :
    Turn w now world (w.step now world).worker (w.step now world).world (w.tried? now world) := by
  have hstep : w.step now world =
      { worker := { w with phase := (w.begin now batch failed world).1 },
        world := (w.begin now batch failed world).2 } := by simp only [step, hphase]
  rw [hstep]
  unfold tried? begin
  rw [hphase]
  dsimp only
  cases hp : Attempt.prepare w.service.pipeline w.endpoint batch ⟨{}, world⟩ with
  | error e s => exact .ended (.refused hphase hp)
  | ok ms s =>
    cases ms with
    | nil =>
      dsimp only
      rw [conclude_eq]
      exact .ended (.nothing hphase hp)
    | cons m ms => exact .launched hphase hp

theorem turn_dispatching {flow : Work (Scope κ) Published}
    (hphase : w.phase = .dispatching batch failed tx flow) :
    Turn w now world (w.step now world).worker (w.step now world).world (w.tried? now world) := by
  have hstep : w.step now world =
      { worker := { w with phase := (w.proceed now batch failed tx flow world).1 },
        world := (w.proceed now batch failed tx flow world).2.1,
        waits := (w.proceed now batch failed tx flow world).2.2 } := by simp only [step, hphase]
  rw [hstep]
  unfold tried? proceed
  rw [hphase]
  dsimp only
  generalize hpoll : flow.poll now ⟨world, some tx.outbox⟩ = r
  obtain ⟨flow', s⟩ := r
  cases flow' with
  | done r =>
    cases r with
    | ok vs =>
      dsimp only
      rw [conclude_eq]
      exact .ended (.published hphase hpoll)
    | error e => exact .ended (.published hphase hpoll)
  | panicked text => exact .panicked hphase hpoll
  | _ => exact .polled hphase hpoll

theorem turn_pausing {deadline : Nat} (hphase : w.phase = .pausing batch failed deadline) :
    Turn w now world (w.step now world).worker (w.step now world).world (w.tried? now world) := by
  have hnone : w.tried? now world = none := by simp only [tried?, hphase]
  rw [hnone]
  unfold step
  rw [hphase]
  dsimp only
  split
  · next hsignal => exact .stopped hphase hsignal
  · split
    · next hdue => exact .woken hphase hdue
    · next hdue => exact .waiting hphase (Nat.lt_of_not_le hdue)

/-- **What a step of a busy worker does.** -/
theorem turn (now : Nat) (world : World κ) (h : w.phase.isBusy = true) :
    Turn w now world (w.step now world).worker (w.step now world).world (w.tried? now world) := by
  cases hphase : w.phase with
  | attempting batch failed => exact turn_attempting hphase
  | dispatching batch failed tx flow => exact turn_dispatching hphase
  | pausing batch failed deadline => exact turn_pausing hphase
  | _ => simp [Phase.isBusy, hphase] at h

/-- A worker keeps its endpoint, its settings and its service. -/
theorem Turn.fixed {w' : Worker κ} {world' : World κ} {a : Option (Tried κ)}
    (h : Turn w now world w' world' a) :
    w'.endpoint = w.endpoint ∧ w'.settings = w.settings ∧ w'.service = w.service := by
  cases h <;> exact ⟨rfl, rfl, rfl⟩

end Worker

/-! ## Trails -/

/-- A worker in its world, with the attempts at its batch that are over, in order. -/
structure Trail (κ : Type) where
  worker : Worker κ
  world : World κ
  tried : List (Tried κ) := []

namespace Trail

/-- A worker that has taken up a batch. -/
def start (w : Worker κ) (batch : List RawMessage) (world : World κ) : Trail κ where
  worker := { w with signal := {}, phase := .attempting batch 0 }
  world := world

/-- A step of the worker. -/
def work (now : Nat) (t : Trail κ) : Trail κ where
  worker := (t.worker.step now t.world).worker
  world := (t.worker.step now t.world).world
  tried := t.tried ++ (t.worker.tried? now t.world).toList

/-- A change of the cancellation signal. -/
def signal (f : Signal → Signal) (t : Trail κ) : Trail κ :=
  { t with worker := { t.worker with signal := f t.worker.signal } }

/-- One step of a worker that is busy with its batch or, along `R`, of others. -/
inductive Step (R : World κ → World κ → Prop) : Trail κ → Trail κ → Prop
  | work (now : Nat) {t : Trail κ} (h : t.worker.phase.isBusy = true) : Step R t (t.work now)
  | others {t : Trail κ} {world : World κ} (h : R t.world world) : Step R t { t with world }
  | cancel (t : Trail κ) : Step R t (t.signal .raise)
  | abandon (t : Trail κ) : Step R t (t.signal .abandon)

/-- Any number of steps. -/
abbrev Steps (R : World κ → World κ → Prop) : Trail κ → Trail κ → Prop :=
  Relation.ReflTransGen (Step R)

variable {R : World κ → World κ → Prop} {t t' : Trail κ}

theorem Step.fixed (h : Step R t t') : t'.worker.endpoint = t.worker.endpoint ∧
    t'.worker.settings = t.worker.settings ∧ t'.worker.service = t.worker.service := by
  cases h with
  | work now hb => exact (Worker.turn now _ hb).fixed
  | others => exact ⟨rfl, rfl, rfl⟩
  | cancel => exact ⟨rfl, rfl, rfl⟩
  | abandon => exact ⟨rfl, rfl, rfl⟩

end Trail

/-! ## Retries -/

namespace Policy

theorem room_of_lt {n limit : UInt32} (h : n < limit) : n.toNat + 1 < UInt32.size := by
  have hlt : n.toNat < limit.toNat := UInt32.lt_iff_toNat_lt.mp h
  have hsize := limit.toNat_lt_size
  omega

mutual

/-- No policy has a batch tried again after as many failures as can be counted. -/
theorem decide_retry {n : UInt32} {delay : Nat} :
    ∀ {p : Policy}, decide n p = .ok (.retry delay) → n.toNat + 1 < UInt32.size
  | .skip, h => by simp [decide] at h
  | .retry r, h => by
    unfold decide at h
    split at h
    · next hn => exact room_of_lt hn
    · cases h
  | .move _ limit, h => by
    unfold decide at h
    split at h
    · next hn => exact room_of_lt hn
    · cases h
  | .chain ps, h => by
    unfold decide at h
    exact decideFirst_retry h

theorem decideFirst_retry {n : UInt32} {delay : Nat} :
    ∀ {ps : List Policy}, decideFirst n ps = .ok (.retry delay) → n.toNat + 1 < UInt32.size
  | [], h => by simp [decideFirst] at h
  | p :: ps, h => by
    unfold decideFirst at h
    split at h
    · exact decide_retry h
    · exact decideFirst_retry h

end

theorem decideWith_retry {policy : Option Policy} {n : UInt32} {delay : Nat}
    (h : decideWith policy n = .ok (.retry delay)) : n.toNat + 1 < UInt32.size := by
  cases policy with
  | none => cases h
  | some p => exact decide_retry h

end Policy

namespace Attempt

theorem marked_marked (first second : UInt32) (ms : List RawMessage) :
    marked second (marked first ms) = marked second ms := by
  unfold marked
  rw [List.map_map]
  refine List.map_congr_left fun m _ => ?_
  dsimp only [Function.comp]
  rw [Headers.insert_insert]

theorem offsets_marked (failed : UInt32) (ms : List RawMessage) :
    offsets (marked failed ms) = offsets ms := by
  unfold offsets marked
  rw [List.filterMap_map]
  rfl

/-- The batch as the attempt after `n` failed ones sees it. -/
def seen (n : Nat) (ms : List RawMessage) : List RawMessage :=
  if n = 0 then ms else marked (UInt32.ofNat n) ms

theorem offsets_seen (n : Nat) (ms : List RawMessage) : offsets (seen n ms) = offsets ms := by
  unfold seen
  split
  · rfl
  · exact offsets_marked _ _

theorem marked_seen (n k : Nat) (ms : List RawMessage) :
    marked (UInt32.ofNat (k + 1)) (seen n ms) = seen (k + 1) ms := by
  unfold seen
  rw [if_neg (Nat.succ_ne_zero k)]
  split
  · rfl
  · exact marked_marked _ _ _

/-- What moving does after the batch is settled. -/
theorem move_eq (s : Service κ) {endpoint target : Endpoint} {failed : UInt32}
    {ms settled : List RawMessage} {tx : Transaction κ} {w u : World κ}
    (hu : Settlement.batch s.wire endpoint ms w = .ok (settled, tx) u) :
    move s endpoint target failed ms w =
      ((Settlement.move endpoint target failed settled).attempt >>= fun o =>
        match o with
        | .error e => do
          let _ ← (tx.rollback s.wire).attempt (δ := String)
          throw (moveFailed target e)
        | .ok _ => do
          (tx.commit s.wire).mapError StoreError.message
          (acknowledge endpoint ms).mapError TransportError.message)
        (endState (World.useProducer (ε := TransportError) s.broker target) u) := by
  unfold move
  rw [bind_of_ok (Op.mapError_ok.mpr hu)]
  rfl

end Attempt

/-- The attempt is failure number `n` of its batch, and the policy has the batch tried again. -/
def Tried.Again (policy : Option Policy) (n : Nat) (a : Tried κ) : Prop :=
  ∃ e delay, a.outcome.error? = some e ∧ e.isFatal = false ∧
    Policy.decideWith policy (UInt32.ofNat n) = .ok (.retry delay)

/-- The attempts are the first ones at the batch, in order, and each has been followed by another
one. -/
def Retried (policy : Option Policy) (batch : List RawMessage) (as : List (Tried κ)) : Prop :=
  ∀ n (h : n < as.length), as[n].batch = Attempt.seen n batch ∧ as[n].failed.toNat = n ∧
    as[n].Again policy (n + 1)

theorem Retried.snoc {policy : Option Policy} {batch : List RawMessage} {as : List (Tried κ)}
    {a : Tried κ} (h : Retried policy batch as) (hb : a.batch = Attempt.seen as.length batch)
    (hf : a.failed.toNat = as.length) (ha : a.Again policy (as.length + 1)) :
    Retried policy batch (as ++ [a]) := by
  intro n hn
  rw [List.length_append, List.length_singleton] at hn
  by_cases hlast : n < as.length
  · rw [List.getElem_append_left hlast]
    exact h n hlast
  · obtain rfl : n = as.length := by omega
    rw [List.getElem_append_right (Nat.le_refl _)]
    simp only [Nat.sub_self, List.getElem_singleton]
    exact ⟨hb, hf, ha⟩

/-- An attempt that is followed by another one has not committed. -/
theorem Tried.Again.uncommitted {policy : Option Policy} {n : Nat} {a : Tried κ}
    (h : a.Again policy n) : a.outcome ≠ .committed := by
  obtain ⟨e, -, he, -⟩ := h
  intro hc
  rw [hc] at he
  cases he

theorem Retried.uncommitted {policy : Option Policy} {batch : List RawMessage}
    {as : List (Tried κ)} (h : Retried policy batch as) {a : Tried κ} (ha : a ∈ as) :
    a.outcome ≠ .committed := by
  obtain ⟨n, hn, rfl⟩ := List.mem_iff_getElem.mp ha
  exact (h n hn).2.2.uncommitted

/-- A batch is not tried again as often as failures can be counted. -/
theorem Retried.room {policy : Option Policy} {batch : List RawMessage} {as : List (Tried κ)}
    (h : Retried policy batch as) : as.length + 1 < UInt32.size := by
  have hall : ∀ n ≤ as.length, n + 1 < UInt32.size := by
    intro n
    induction n with
    | zero => exact fun _ => by decide
    | succ n ih =>
      intro hn
      obtain ⟨-, -, e, delay, -, -, hd⟩ := h n hn
      have hroom := Policy.decideWith_retry hd
      rwa [UInt32.toNat_ofNat_of_lt' (ih (Nat.le_of_succ_le hn))] at hroom
  exact hall _ (Nat.le_refl _)

namespace Worker

variable {w w' : Worker κ} {now n : Nat} {a : Tried κ} {batch : List RawMessage} {k : UInt32}
  {e : InboundError} {world : World κ}

/-- What follows an attempt is a matter of the endpoint, the settings and the service. -/
theorem resolve_congr (he : w'.endpoint = w.endpoint) (hs : w'.settings = w.settings)
    (hv : w'.service = w.service) : w'.resolve now a = w.resolve now a := by
  unfold resolve giveWay
  rw [he, hs, hv]

theorem closes_congr (hv : w'.service = w.service) (b : List RawMessage) (k : UInt32)
    (tx : Transaction κ) (u : World κ) (v : Option InboundError) :
    w'.closes b k tx u v = w.closes b k tx u v := by
  unfold closes
  rw [hv]

theorem next_failed (h : k.toNat = n) : k + 1 = UInt32.ofNat (n + 1) := by
  rw [← h, UInt32.ofNat_add, UInt32.ofNat_toNat]
  rfl

theorem resolve_error (he : a.outcome.error? = some e) :
    w.resolve now a = w.giveWay now a.batch a.failed e a.world := by
  unfold resolve
  rw [he]

theorem giveWay_fatal (hf : e.isFatal = true) :
    w.giveWay now batch k e world = (.failed e.message, world) := by
  unfold giveWay
  rw [if_pos hf]

/-- A delay that does not fit. -/
theorem giveWay_overflow {overflow : Overflow} (hf : e.isFatal = false)
    (hk : k + 1 = UInt32.ofNat n)
    (hd : Policy.decideWith w.settings.policy (UInt32.ofNat n) = .error overflow) :
    w.giveWay now batch k e world = (.panicked, world) := by
  unfold giveWay
  rw [if_neg (by simp [hf]), hk]
  dsimp only
  rw [hd]

/-- The end that the policy decides on. -/
theorem giveWay_decided {action : Action} (hf : e.isFatal = false)
    (hk : k + 1 = UInt32.ofNat n) :
    Policy.decideWith w.settings.policy (UInt32.ofNat n) = .ok action →
    w.giveWay now batch k e world =
      match action with
      | .retry delay =>
        if delay = 0 then
          (.attempting (Attempt.marked (UInt32.ofNat n) batch) (UInt32.ofNat n), world)
        else (.pausing (Attempt.marked (UInt32.ofNat n) batch) (UInt32.ofNat n) (now + delay), world)
      | .skip =>
        let r := (Attempt.skip w.service w.endpoint batch).exec world
        (finished r.1, r.2)
      | .move target =>
        let r := (Attempt.move w.service w.endpoint target (UInt32.ofNat n) batch).exec world
        (finished r.1, r.2)
      | .fatal => (.failed e.message, world) := by
  intro hd
  unfold giveWay
  rw [if_neg (by simp [hf]), hk]
  dsimp only
  rw [hd]
  cases action <;> rfl

/-- An attempt that is followed by another one leaves its batch for that. -/
theorem resolve_again (now : Nat) (hf : a.failed.toNat = n) (ha : a.Again w.settings.policy (n + 1)) :
    (w.resolve now a).2 = a.world ∧
      ((w.resolve now a).1 =
          .attempting (Attempt.marked (UInt32.ofNat (n + 1)) a.batch) (UInt32.ofNat (n + 1)) ∨
        ∃ deadline, (w.resolve now a).1 =
          .pausing (Attempt.marked (UInt32.ofNat (n + 1)) a.batch) (UInt32.ofNat (n + 1)) deadline) := by
  obtain ⟨e, delay, he, hfatal, hd⟩ := ha
  rw [resolve_error he, giveWay_decided hfatal (next_failed hf) hd]
  dsimp only
  split
  · exact ⟨rfl, Or.inl rfl⟩
  · exact ⟨rfl, Or.inr ⟨_, rfl⟩⟩

/-- An attempt that is not ends the batch. -/
theorem resolve_last (hf : a.failed.toNat = n) (ha : ¬ a.Again w.settings.policy (n + 1)) :
    (w.resolve now a).1.Released := by
  have hfinished : ∀ r, (finished r : Phase κ).Released := fun r => by cases r <;> trivial
  have hk := next_failed hf
  cases he : a.outcome.error? with
  | none =>
    unfold resolve
    rw [he]
    exact hfinished _
  | some e =>
    rw [resolve_error he]
    cases hfatal : e.isFatal with
    | true => rw [giveWay_fatal hfatal]; trivial
    | false =>
      cases hd : Policy.decideWith w.settings.policy (UInt32.ofNat (n + 1)) with
      | error overflow => rw [giveWay_overflow hfatal hk hd]; trivial
      | ok action =>
        rw [giveWay_decided hfatal hk hd]
        cases action with
        | retry delay => exact absurd ⟨e, delay, he, hfatal, hd⟩ ha
        | skip => exact hfinished _
        | move target => exact hfinished _
        | fatal => trivial

end Worker

/-! ## Where a worker stands with its batch -/

/-- The publishes of the worker keep `S`, which keeps the world along `R` while there is an outbox;
so do its custom stages and its calls to the stores. -/
structure Worker.Along (R : World κ → World κ → Prop) (S : Scope κ → Scope κ → Prop)
    (w : Worker κ) : Prop where
  stores : ∀ u u' : World κ, World.Stores u u' → R u u'
  scope : ∀ s s' : Scope κ, S s s' → s.outbox.isSome → R s.world s'.world
  pipeline : ∃ custom, w.service.pipeline = .create w.service.wire custom ∧
    ∀ st ∈ custom, st.Keeps R
  publisher : ∀ ms, (w.service.publisher.publish ms).Keeps S

theorem Worker.Along.of_service {R : World κ → World κ → Prop} {S : Scope κ → Scope κ → Prop}
    {w w' : Worker κ} (h : w.Along R S) (hs : w'.service = w.service) : w'.Along R S :=
  ⟨h.stores, h.scope, by rw [hs]; exact h.pipeline, by rw [hs]; exact h.publisher⟩

/-- What goes on of an attempt in the phase is along `R` and `S`. -/
def Phase.Along (R : World κ → World κ → Prop) (S : Scope κ → Scope κ → Prop) : Phase κ → Prop
  | .dispatching _ _ tx flow => tx.Along R ∧ flow.Keeps S
  | _ => True

theorem Phase.Released.along {R : World κ → World κ → Prop} {S : Scope κ → Scope κ → Prop}
    {p : Phase κ} (h : p.Released) : p.Along R S := by
  cases p with
  | dispatching => cases h
  | _ => trivial

/-- The phase holds the batch as the attempt after `n` failed ones sees it, and what goes on of the
attempt is along `R` and `S`. -/
def Phase.Holds (R : World κ → World κ → Prop) (S : Scope κ → Scope κ → Prop)
    (batch : List RawMessage) (n : Nat) : Phase κ → Prop
  | .attempting b k => b = Attempt.seen n batch ∧ k.toNat = n
  | .dispatching b k tx flow =>
    (b = Attempt.seen n batch ∧ k.toNat = n) ∧ tx.Along R ∧ flow.Keeps S
  | .pausing b k _ => b = Attempt.seen n batch ∧ k.toNat = n
  | _ => False

theorem Phase.Holds.inHand {R : World κ → World κ → Prop} {S : Scope κ → Scope κ → Prop}
    {batch : List RawMessage} {n : Nat} {p : Phase κ} (h : p.Holds R S batch n) :
    p.inHand = Attempt.seen n batch := by
  cases p with
  | attempting b k => exact h.1
  | dispatching b k tx flow => exact h.1.1
  | pausing b k deadline => exact h.1
  | _ => cases h

theorem Phase.Holds.along {R : World κ → World κ → Prop} {S : Scope κ → Scope κ → Prop}
    {batch : List RawMessage} {n : Nat} {p : Phase κ} (h : p.Holds R S batch n) : p.Along R S := by
  cases p with
  | dispatching b k tx flow => exact h.2
  | _ => trivial

/-- Every commit is along `R`, or none of the attempts was undone. -/
def Calm (R : World κ → World κ → Prop) (wire : Wire) (as : List (Tried κ)) : Prop :=
  (∀ tx : Transaction κ, tx.Along R → Within R (tx.commit wire)) ∨
    ∀ a ∈ as, ∀ e, a.outcome ≠ .undone e

/-- What has become of a batch: the worker is busy with a further attempt, or the last attempt has
closed it, or a publish has panicked, or the worker was told to stop. -/
inductive Standing (R : World κ → World κ → Prop) (S : Scope κ → Scope κ → Prop) (w : Worker κ)
    (world : World κ) (batch : List RawMessage) (t : Trail κ) : Prop
  | busy (hphase : t.worker.phase.Holds R S batch t.tried.length)
    (htried : Retried w.settings.policy batch t.tried)
    (hr : Calm R w.service.wire t.tried → R world t.world)
  | closed {before : List (Tried κ)} {failed : UInt32} {tx : Transaction κ} {u : World κ}
    {v : Option InboundError} {now : Nat}
    (ht : t.tried = before ++ [w.closes (Attempt.seen before.length batch) failed tx u v])
    (hf : failed.toNat = before.length)
    (htried : Retried w.settings.policy batch before)
    (hlast : ¬ (w.closes (Attempt.seen before.length batch) failed tx u v).Again w.settings.policy
      (before.length + 1))
    (htx : tx.Along R) (hu : Calm R w.service.wire before → R world u)
    (hphase : t.worker.phase =
      (w.resolve now (w.closes (Attempt.seen before.length batch) failed tx u v)).1)
    (hr : R (w.resolve now (w.closes (Attempt.seen before.length batch) failed tx u v)).2 t.world)
  | panicked (hphase : t.worker.phase = .panicked) (htried : Retried w.settings.policy batch t.tried)
    (hr : Calm R w.service.wire t.tried → R world t.world)
  | stopped (hphase : t.worker.phase = .ready)
    (hs : t.worker.signal.raised = true ∨ t.worker.signal.abandoned = true)
    (htried : Retried w.settings.policy batch t.tried)
    (hr : Calm R w.service.wire t.tried → R world t.world)

section
variable {R : World κ → World κ → Prop} {S : Scope κ → Scope κ → Prop} [Std.Refl R]
  [IsTrans (World κ) R] [Std.Refl S] [IsTrans (Scope κ) S] {w : Worker κ} {world : World κ}
  {batch : List RawMessage} {t : Trail κ}

namespace Worker

theorem closes_batch (b : List RawMessage) (k : UInt32) (tx : Transaction κ) (u : World κ)
    (v : Option InboundError) :
    (w.closes b k tx u v).batch = b ∧ (w.closes b k tx u v).failed = k := by
  cases v with
  | some e => exact ⟨rfl, rfl⟩
  | none =>
    unfold closes
    dsimp only
    split <;> exact ⟨rfl, rfl⟩

/-- An attempt that has failed leaves the world along `R`. -/
theorem closes_along {b : List RawMessage} {k : UInt32} {tx : Transaction κ} {u : World κ}
    {v : Option InboundError} {as : List (Tried κ)} (htx : tx.Along R)
    (hc : Calm R w.service.wire (as ++ [w.closes b k tx u v]))
    (hne : (w.closes b k tx u v).outcome ≠ .committed) : R u (w.closes b k tx u v).world := by
  cases v with
  | some e =>
    have hroll : Within R (tx.rollback w.service.wire) := Transaction.rollback_along htx
    change R u ((tx.rollback w.service.wire).exec u).2
    rw [Op.exec_world]
    exact hroll u
  | none =>
    cases hx : tx.commit w.service.wire u with
    | ok _ u' => exact absurd (by rw [closes_committed hx]) hne
    | error e u' =>
      rw [closes_undone hx] at hc ⊢
      rcases hc with hc | hc
      · exact (hc tx htx).error hx
      · exact absurd rfl (hc _ (List.mem_append_right _ (List.mem_singleton_self _)) e)

omit [Std.Refl S] [IsTrans (Scope κ) S] in
theorem Along.prepare (h : w.Along R S) (b : List RawMessage) :
    Within (Inbox.Along R) (Attempt.prepare w.service.pipeline w.endpoint b) := by
  obtain ⟨custom, hp, hc⟩ := h.pipeline
  rw [hp]
  exact Attempt.prepare_within (Pipeline.create_preserves (.of_stores h.stores) _ hc) w.endpoint b

omit [Std.Refl R] [IsTrans (World κ) R] in
/-- An attempt that comes to its end is along what its stages and its publish are along. -/
theorem Reaches.carried {w' : Worker κ} {now : Nat} {b : List RawMessage} {k : UInt32}
    {tx : Transaction κ} {u v : World κ} {e : Option InboundError}
    (hprepare : ∀ b, Within (Inbox.Along R) (Attempt.prepare w'.service.pipeline w'.endpoint b))
    (hscope : ∀ s s' : Scope κ, S s s' → s.outbox.isSome → R s.world s'.world)
    (hphase : w'.phase.Along R S) (h : w'.Reaches now u b k tx v e) : tx.Along R ∧ R u v := by
  cases h with
  | refused hb hp =>
    have ha := (hprepare b).error hp
    exact ⟨ha.resources Transaction.along_empty, ha.world⟩
  | nothing hb hp =>
    have ha := (hprepare b).ok hp
    exact ⟨ha.resources Transaction.along_empty, ha.world⟩
  | @published tx flow r s hb hpoll =>
    rw [hb] at hphase
    obtain ⟨htx, hflow⟩ := hphase
    have hs := (hflow.poll now ⟨u, some tx.outbox⟩).1
    rw [hpoll] at hs
    exact ⟨htx, hscope _ _ hs rfl⟩

/-- An attempt that comes to its end is along `R` up to there. -/
theorem Reaches.keeps {w' : Worker κ} {now : Nat} {b : List RawMessage} {k : UInt32}
    {tx : Transaction κ} {u v : World κ} {e : Option InboundError}
    (hw : w'.Along R S) (hphase : w'.phase.Along R S) (h : w'.Reaches now u b k tx v e) :
    tx.Along R ∧ R u v :=
  h.carried hw.prepare hw.scope hphase

theorem Reaches.along {w' : Worker κ} {now n : Nat} {b : List RawMessage} {k : UInt32}
    {tx : Transaction κ} {u v : World κ} {e : Option InboundError}
    (hw : w'.Along R S) (hphase : w'.phase.Holds R S batch n)
    (h : w'.Reaches now u b k tx v e) :
    (b = Attempt.seen n batch ∧ k.toNat = n) ∧ tx.Along R ∧ R u v := by
  refine ⟨?_, h.keeps hw hphase.along⟩
  cases h with
  | refused hb | nothing hb => rw [hb] at hphase; exact hphase
  | published hb => rw [hb] at hphase; exact hphase.1

end Worker

/-- The worker has the endpoint, the settings and the service that it began with. -/
structure Trail.Same (w : Worker κ) (t : Trail κ) : Prop where
  endpoint : t.worker.endpoint = w.endpoint
  settings : t.worker.settings = w.settings
  service : t.worker.service = w.service

namespace Standing

/-- The end of an attempt. -/
theorem ended {now : Nat} {b : List RawMessage} {k : UInt32} {tx : Transaction κ} {u : World κ}
    {v : Option InboundError} (hw : w.Along R S) (hsame : t.Same w)
    (hphase : t.worker.phase.Holds R S batch t.tried.length)
    (htried : Retried w.settings.policy batch t.tried)
    (hr : Calm R w.service.wire t.tried → R world t.world)
    (h : t.worker.Reaches now t.world b k tx u v) {t' : Trail κ}
    (hphase' : t'.worker.phase = (w.resolve now (w.closes b k tx u v)).1)
    (hworld' : t'.world = (w.resolve now (w.closes b k tx u v)).2)
    (htried' : t'.tried = t.tried ++ [w.closes b k tx u v]) : Standing R S w world batch t' := by
  obtain ⟨⟨rfl, hk⟩, htx, hu⟩ := h.along (hw.of_service hsame.service) hphase
  obtain ⟨hb, hf⟩ := w.closes_batch (Attempt.seen t.tried.length batch) k tx u v
  by_cases ha : (w.closes (Attempt.seen t.tried.length batch) k tx u v).Again w.settings.policy
      (t.tried.length + 1)
  · -- the batch is tried again
    have hk' := (congrArg UInt32.toNat hf).trans hk
    have hlen : t'.tried.length = t.tried.length + 1 := by rw [htried']; simp
    obtain ⟨hworld, hnext⟩ := Worker.resolve_again now hk' ha
    have hcount : (UInt32.ofNat (t.tried.length + 1)).toNat = t.tried.length + 1 :=
      UInt32.toNat_ofNat_of_lt' htried.room
    have hseen := Attempt.marked_seen t.tried.length t.tried.length batch
    refine .busy ?_ ?_ ?_
    · rw [hlen, hphase']
      rcases hnext with hn | ⟨deadline, hn⟩
      · rw [hn, hb, hseen]
        exact ⟨rfl, hcount⟩
      · rw [hn, hb, hseen]
        exact ⟨rfl, hcount⟩
    · rw [htried']
      exact htried.snoc hb hk' ha
    · intro hc
      rw [htried'] at hc
      have hbefore : Calm R w.service.wire t.tried :=
        hc.imp id fun h a hm => h a (List.mem_append_left _ hm)
      rw [hworld', hworld]
      exact IsTrans.trans _ _ _ (hr hbefore)
        (IsTrans.trans _ _ _ hu (Worker.closes_along htx hc ha.uncommitted))
  · refine .closed htried' hk htried ha htx (fun hc => IsTrans.trans _ _ _ (hr hc) hu) hphase' ?_
    rw [hworld']
    exact Std.Refl.refl _

/-- A step of the worker. -/
theorem turn {now : Nat} {w' : Worker κ} {world' : World κ} {a : Option (Tried κ)}
    (hw : w.Along R S) (hsame : t.Same w) (hphase : t.worker.phase.Holds R S batch t.tried.length)
    (htried : Retried w.settings.policy batch t.tried)
    (hr : Calm R w.service.wire t.tried → R world t.world)
    (h : t.worker.Turn now t.world w' world' a) :
    Standing R S w world batch ⟨w', world', t.tried ++ a.toList⟩ := by
  have hw' := hw.of_service hsame.service
  -- the attempts stay the same until the one in progress is over
  have hsame' : t.tried ++ (none : Option (Tried κ)).toList = t.tried := List.append_nil _
  cases h with
  | ended h =>
    rw [Worker.closes_congr hsame.service,
      Worker.resolve_congr hsame.endpoint hsame.settings hsame.service]
    exact ended hw hsame hphase htried hr h rfl rfl rfl
  | launched hb hp =>
    rw [hsame']
    rw [hb] at hphase
    have ha := (hw'.prepare _).ok hp
    exact .busy ⟨hphase, ha.resources Transaction.along_empty, hw'.publisher _⟩ htried
      fun hc => IsTrans.trans _ _ _ (hr hc) ha.world
  | @polled _ _ tx _ _ _ hb hpoll =>
    rw [hsame']
    rw [hb] at hphase
    obtain ⟨hin, htx, hflow⟩ := hphase
    obtain ⟨hs, hk⟩ := hflow.poll now ⟨t.world, some tx.outbox⟩
    rw [hpoll] at hs hk
    exact .busy ⟨hin, htx, hk⟩ htried
      fun hc => IsTrans.trans _ _ _ (hr hc) (hw.scope _ _ hs rfl)
  | @panicked _ _ tx _ _ _ hb hpoll =>
    rw [hsame']
    rw [hb] at hphase
    obtain ⟨-, -, hflow⟩ := hphase
    have hs := (hflow.poll now ⟨t.world, some tx.outbox⟩).1
    rw [hpoll] at hs
    exact .panicked rfl htried fun hc => IsTrans.trans _ _ _ (hr hc) (hw.scope _ _ hs rfl)
  | stopped hb hsignal =>
    rw [hsame']
    exact .stopped rfl (Signal.changed?_some hsignal) htried hr
  | woken hb hdue =>
    rw [hsame']
    rw [hb] at hphase
    exact .busy hphase htried hr
  | waiting hb hdue =>
    rw [hsame']
    exact .busy hphase htried hr

omit [Std.Refl R] [IsTrans (World κ) R] [Std.Refl S] [IsTrans (Scope κ) S] in
/-- A worker that is busy is so with a further attempt. -/
theorem of_busy (h : Standing R S w world batch t) (hb : t.worker.phase.isBusy = true) :
    t.worker.phase.Holds R S batch t.tried.length ∧ Retried w.settings.policy batch t.tried ∧
      (Calm R w.service.wire t.tried → R world t.world) := by
  cases h with
  | busy hphase htried hr => exact ⟨hphase, htried, hr⟩
  | @closed before k tx u v now' ht hf htried hlast htx hu hphase hr =>
    have hk := congrArg UInt32.toNat
      (w.closes_batch (Attempt.seen before.length batch) k tx u v).2
    rw [hphase, (Worker.resolve_last (hk.trans hf) hlast).idle] at hb
    cases hb
  | panicked hphase => rw [hphase] at hb; cases hb
  | stopped hphase => rw [hphase] at hb; cases hb

/-- Every step keeps it so. -/
theorem step (h : Standing R S w world batch t) (hw : w.Along R S) (hsame : t.Same w)
    {t' : Trail κ} (hs : Trail.Step R t t') : Standing R S w world batch t' := by
  cases hs with
  | work now hb =>
    obtain ⟨hphase, htried, hr⟩ := h.of_busy hb
    exact turn hw hsame hphase htried hr (Worker.turn _ _ hb)
  | others hr' =>
    cases h with
    | busy hphase htried hr =>
      exact .busy hphase htried fun hc => IsTrans.trans _ _ _ (hr hc) hr'
    | closed ht hf htried hlast htx hu hphase hr =>
      exact .closed ht hf htried hlast htx hu hphase (IsTrans.trans _ _ _ hr hr')
    | panicked hphase htried hr =>
      exact .panicked hphase htried fun hc => IsTrans.trans _ _ _ (hr hc) hr'
    | stopped hphase hs htried hr =>
      exact .stopped hphase hs htried fun hc => IsTrans.trans _ _ _ (hr hc) hr'
  | cancel =>
    cases h with
    | busy hphase htried hr => exact .busy hphase htried hr
    | closed ht hf htried hlast htx hu hphase hr =>
      exact .closed ht hf htried hlast htx hu hphase hr
    | panicked hphase htried hr => exact .panicked hphase htried hr
    | stopped hphase hs htried hr => exact .stopped hphase (Or.inl rfl) htried hr
  | abandon =>
    cases h with
    | busy hphase htried hr => exact .busy hphase htried hr
    | closed ht hf htried hlast htx hu hphase hr =>
      exact .closed ht hf htried hlast htx hu hphase hr
    | panicked hphase htried hr => exact .panicked hphase htried hr
    | stopped hphase hs htried hr => exact .stopped hphase (Or.inr rfl) htried hr

end Standing

/-- **What becomes of a batch**, in every state that its worker reaches. -/
theorem Trail.standing (hw : w.Along R S) (batch : List RawMessage) (world : World κ)
    (ht : Steps R (start w batch world) t) : t.Same w ∧ Standing R S w world batch t := by
  induction ht with
  | refl =>
    refine ⟨⟨rfl, rfl, rfl⟩, .busy ⟨rfl, rfl⟩ ?_ fun _ => Std.Refl.refl world⟩
    intro n hn
    cases hn
  | tail _ hs ih =>
    obtain ⟨hsame, h⟩ := ih
    obtain ⟨he, hset, hv⟩ := hs.fixed
    exact ⟨⟨he.trans hsame.endpoint, hset.trans hsame.settings, hv.trans hsame.service⟩,
      h.step hw hsame hs⟩

end

end Relay
