import Relay.Proofs.Consumer.Trail
import Relay.Proofs.Policy
/-!
# How often a batch is attempted

A worker counts the failed attempts at its batch and asks its policy after each of them. What a
valid policy decides is a matter of one threshold, so that bounds the attempts too: a trail is
`Counted`, whatever its pipeline and its handlers do and others do meanwhile.

Results:
- `Trail.Counted.steps`: a policy that has no batch tried again from some number of failures on
  bounds the attempts by that number.
- `Policy.threshold_decides`: what a valid policy decides, and how often a batch is attempted then.
-/
namespace Relay

variable {κ : Type}

/-- The failed attempts at its batch that a busy worker counts. -/
def Phase.failures : Phase κ → Nat
  | .attempting _ k => k.toNat
  | .dispatching _ k _ _ => k.toNat
  | .pausing _ k _ => k.toNat
  | _ => 0

/-- No batch is tried again once so many attempts at it have failed. -/
def Policy.StopsAt (policy : Option Policy) (N : Nat) : Prop :=
  ∀ n delay, decideWith policy n = .ok (.retry delay) → n.toNat < N

/-- At most `N` attempts are over, fewer while the worker is busy with a further one, and all of
them are counted then. -/
structure Trail.Counted (N : Nat) (t : Trail κ) : Prop where
  most : t.tried.length ≤ N
  further : t.worker.phase.isBusy = true → t.tried.length < N
  counted : t.worker.phase.isBusy = true → t.worker.phase.failures = t.tried.length

/-- An attempt that ends has the failures before it as its number. -/
theorem Worker.Reaches.failures {w : Worker κ} {now : Nat} {b : List RawMessage} {k : UInt32}
    {tx : Transaction κ} {u v : World κ} {e : Option InboundError}
    (h : w.Reaches now u b k tx v e) : w.phase.failures = k.toNat := by
  cases h with
  | refused hphase | nothing hphase | published hphase => rw [hphase]; rfl

namespace Trail.Counted

variable {R : World κ → World κ → Prop} {N : Nat} {t t' : Trail κ} {policy : Option Policy}

/-- An attempt is over, and another one follows only where the policy has the batch tried again. -/
theorem ended {now : Nat} {w' : Worker κ} {world' : World κ} {a : Tried κ} (h : t.Counted N)
    (hsize : N < UInt32.size) (hstop : Policy.StopsAt t.worker.settings.policy N)
    (hbusy : t.worker.phase.isBusy = true) (hf : t.worker.phase.failures = a.failed.toNat)
    (hphase : w'.phase = (t.worker.resolve now a).1) :
    Counted N ⟨w', world', t.tried ++ [a]⟩ := by
  have hlt := h.further hbusy
  have hcount : a.failed.toNat = t.tried.length := hf.symm.trans (h.counted hbusy)
  have hlength : (Trail.mk w' world' (t.tried ++ [a])).tried.length = t.tried.length + 1 :=
    List.length_append
  by_cases ha : a.Again t.worker.settings.policy (t.tried.length + 1)
  · have hnext : (UInt32.ofNat (t.tried.length + 1)).toNat = t.tried.length + 1 :=
      UInt32.toNat_ofNat_of_lt' (by omega)
    have hfailures : w'.phase.failures = t.tried.length + 1 := by
      obtain ⟨-, h | ⟨deadline, h⟩⟩ := Worker.resolve_again now hcount ha
      · rw [hphase, h]
        exact hnext
      · rw [hphase, h]
        exact hnext
    obtain ⟨-, delay, -, -, hd⟩ := ha
    have hmore : t.tried.length + 1 < N := hnext ▸ hstop _ _ hd
    exact ⟨by omega, fun _ => by omega, fun _ => hfailures.trans hlength.symm⟩
  · -- the worker lets go of the batch
    have hidle : w'.phase.isBusy = false := by
      rw [hphase]
      exact (Worker.resolve_last hcount ha).idle
    exact ⟨by omega, fun hb => absurd hb (by simp [hidle]), fun hb => absurd hb (by simp [hidle])⟩

/-- No attempt is over, and the worker counts what it has counted or lets go of the batch. -/
theorem kept {w' : Worker κ} {world' : World κ} (h : t.Counted N)
    (hbusy : t.worker.phase.isBusy = true)
    (hphase : w'.phase.isBusy = true → w'.phase.failures = t.worker.phase.failures) :
    Counted N ⟨w', world', t.tried⟩ :=
  ⟨h.most, fun _ => h.further hbusy, fun hb => (hphase hb).trans (h.counted hbusy)⟩

theorem turn {now : Nat} {w' : Worker κ} {world' : World κ} {a : Option (Tried κ)}
    (h : t.Counted N) (hsize : N < UInt32.size)
    (hstop : Policy.StopsAt t.worker.settings.policy N) (hbusy : t.worker.phase.isBusy = true)
    (hturn : t.worker.Turn now t.world w' world' a) :
    Counted N ⟨w', world', t.tried ++ a.toList⟩ := by
  have hsame : t.tried ++ (none : Option (Tried κ)).toList = t.tried := List.append_nil _
  cases hturn with
  | @ended b k tx u v hreach =>
    have hf : (t.worker.closes b k tx u v).failed = k := (t.worker.closes_batch b k tx u v).2
    exact h.ended hsize hstop hbusy (hreach.failures.trans (congrArg UInt32.toNat hf.symm)) rfl
  | launched hphase | polled hphase | woken hphase =>
    rw [hsame]
    exact h.kept hbusy fun _ => by rw [hphase]; rfl
  | panicked | stopped =>
    rw [hsame]
    exact h.kept hbusy nofun
  | waiting =>
    rw [hsame]
    exact h.kept hbusy fun _ => rfl

theorem step (h : t.Counted N) (hsize : N < UInt32.size)
    (hstop : Policy.StopsAt t.worker.settings.policy N) (hs : Step R t t') : t'.Counted N := by
  cases hs with
  | work now hbusy => exact h.turn hsize hstop hbusy (Worker.turn now t.world hbusy)
  | others | cancel | abandon => exact ⟨h.most, h.further, h.counted⟩

/-- **The policy bounds the attempts**, if the number of failures can be counted. -/
theorem steps (h : t.Counted N) (hsize : N < UInt32.size)
    (hstop : Policy.StopsAt t.worker.settings.policy N) (hs : Steps R t t') : t'.Counted N := by
  suffices t'.worker.settings = t.worker.settings ∧ t'.Counted N from this.2
  induction hs with
  | refl => exact ⟨rfl, h⟩
  | tail _ hstep ih =>
    obtain ⟨hsettings, hcounted⟩ := ih
    obtain ⟨-, hfixed, -⟩ := hstep.fixed
    refine ⟨hfixed.trans hsettings, hcounted.step hsize ?_ hstep⟩
    rw [hsettings]
    exact hstop

end Trail.Counted

namespace Policy

variable {p : Policy} {N : Nat}

theorem limit_lt_size (q : Policy) : q.limit < UInt32.size := by
  cases q with
  | skip => exact (1 : UInt32).toNat_lt_size
  | retry r => exact r.maxFailedAttempts.toNat_lt_size
  | move _ n => exact n.toNat_lt_size
  | chain _ => exact (0 : UInt32).toNat_lt_size

theorem IsThreshold.lt_size {flat : List Policy} (hN : IsThreshold flat N) : N < UInt32.size := by
  obtain ⟨q, -, rfl⟩ := hN.1
  exact q.limit_lt_size

/-- Every member has room for an attempt, and so has the policy. -/
theorem WellFormed.threshold_pos {flat : List Policy} (h : WellFormed flat)
    (hN : IsThreshold flat N) : 1 ≤ N := by
  obtain ⟨q, hq, rfl⟩ := hN.1
  exact h.room q hq

theorem stopsAt_threshold (hp : p.validate = .ok ()) (hN : IsThreshold p.flatten N) :
    StopsAt (some p) N := by
  intro n delay hd
  refine Nat.lt_of_not_le fun hle => ?_
  obtain ⟨q, -, hq⟩ := (wellFormed_of_valid hp).decide_spent (fun _ => single_of_flatten) hN hle
  rw [decide_flatten] at hq
  have hverdict : q.verdict = .retry delay := Except.ok.inj (hq.symm.trans hd)
  cases q <;> cases hverdict

/-- **A valid policy decides by one threshold**, the largest limit of its members. Below it a batch
is tried again: after the delay of the first retry that is not used up, if that fits, and at once if
only the move at the end has room left. From there on the last member has its way. So a batch that
an attempt is about to be made at, with none failed yet, is attempted that often at most: fewer
attempts are over as long as the worker is busy with a further one. -/
theorem threshold_decides (hp : p.validate = .ok ()) :
    ∃ N, IsThreshold p.flatten N ∧
      (∀ n : UInt32, 1 ≤ n.toNat → n.toNat < N →
        (∃ r, FirstAbove n p.flatten r ∧ decide n p = (r.delay n).map .retry ∧
          (r.initialDelay + r.delayIncrement * (n.toNat - 1) < durationLimit →
            decide n p = .ok (.retry (r.initialDelay + r.delayIncrement * (n.toNat - 1))))) ∨
        ((∀ r, .retry r ∈ p.flatten → r.maxFailedAttempts ≤ n) ∧
          (∃ e m, p.flatten.getLast? = some (.move e m) ∧ n < m) ∧
          decide n p = .ok (.retry 0))) ∧
      (∀ n : UInt32, N ≤ n.toNat →
        ∃ q, p.flatten.getLast? = some q ∧ decide n p = .ok q.verdict) ∧
      ∀ {κ : Type} (R : World κ → World κ → Prop) (t t' : Trail κ) (batch : List RawMessage),
        t.worker.settings.policy = some p → t.worker.phase = .attempting batch 0 → t.tried = [] →
        Trail.Steps R t t' →
        t'.tried.length ≤ N ∧ (t'.worker.phase.isBusy = true → t'.tried.length < N) := by
  have hflat := wellFormed_of_valid hp
  have hs : ∀ q ∈ p.flatten, q.Single := fun _ => single_of_flatten
  obtain ⟨N, hN⟩ := hflat.exists_threshold
  refine ⟨N, hN, fun n hpos hlt => ?_, fun n hle => ?_, ?_⟩
  · rw [← decide_flatten]
    rcases firstAbove_or_spent n p.flatten with ⟨r, hr⟩ | hspent
    · refine .inl ⟨r, hr, hflat.decide_first hs hr, fun hfits => ?_⟩
      rw [hflat.decide_first hs hr, r.delay_fits n hfits]
      rfl
    · exact .inr ⟨hspent, hflat.decide_waiting hs hN hpos hlt hspent⟩
  · rw [← decide_flatten]
    exact hflat.decide_spent hs hN hle
  · intro κ R t t' batch hpolicy hphase htried hsteps
    have hstart : t.Counted N := by
      have hnone : t.tried.length = 0 := by rw [htried]; rfl
      have hpos := hflat.threshold_pos hN
      refine ⟨by omega, fun _ => by omega, fun _ => ?_⟩
      rw [hphase, hnone]
      rfl
    have hstop : StopsAt t.worker.settings.policy N := hpolicy ▸ stopsAt_threshold hp hN
    have hcounted := hstart.steps hN.lt_size hstop hsteps
    exact ⟨hcounted.most, hcounted.further⟩

/-- Retries with limits that fall and then rise again, the first of them in a chain of its own, and
a move that has batches tried again for longer than they do. -/
def stepwise : Policy :=
  .chain [.chain [.retry ⟨3, 100, 50⟩], .retry ⟨2, 10, 0⟩, .retry ⟨4, 7, 1⟩,
    .move ⟨"dead letters", none, []⟩ 6]

theorem stepwise_threshold :
    stepwise.validate = .ok () ∧ IsThreshold stepwise.flatten 6 ∧
      [1, 2, 3, 4, 5].map (decide · stepwise) =
        [.ok (.retry 100), .ok (.retry 150), .ok (.retry 9), .ok (.retry 0), .ok (.retry 0)] ∧
      (∀ n : UInt32, 6 ≤ n.toNat → decide n stepwise = .ok (.move ⟨"dead letters", none, []⟩)) ∧
      ∀ {κ : Type} (R : World κ → World κ → Prop) (t t' : Trail κ) (batch : List RawMessage),
        t.worker.settings.policy = some stepwise → t.worker.phase = .attempting batch 0 →
        t.tried = [] → Trail.Steps R t t' → t'.tried.length ≤ 6 := by
  have hvalid : stepwise.validate = .ok () := rfl
  obtain ⟨N, hN, -, hspent, hattempts⟩ := threshold_decides hvalid
  obtain rfl : N = 6 := by
    have hlimits : ∀ q ∈ stepwise.flatten, q.limit ≤ 6 := by decide +kernel
    obtain ⟨q, hq, hlimit⟩ := hN.1
    have hle : N ≤ 6 := hlimit ▸ hlimits q hq
    have hmove : .move ⟨"dead letters", none, []⟩ 6 ∈ stepwise.flatten :=
      List.mem_of_getLast? rfl
    have hge : 6 ≤ N := hN.2 ⟨_, hmove, rfl⟩
    omega
  refine ⟨hvalid, hN, by decide +kernel, fun n hn => ?_,
    fun R t t' batch hpolicy hphase htried hs => (hattempts R t t' batch hpolicy hphase htried hs).1⟩
  obtain ⟨q, hlast, hq⟩ := hspent n hn
  obtain rfl : .move ⟨"dead letters", none, []⟩ 6 = q := Option.some.inj hlast
  exact hq

end Policy

end Relay
