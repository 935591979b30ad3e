import Mathlib.Data.List.MinMax
import Mathlib.Order.Bounds.Defs
import Relay.Consumer.Settings
/-!
# What policies mean

A chain means the flat chain of its members, however deep they nest: the decision is taken on the
policy as it is nested, the check is made on its flattening, and the two views agree
(`Policy.nesting_immaterial`). A valid policy is a number of retries and one policy that ends them,
each with room for an attempt (`WellFormed`), so it decides by one threshold, the largest limit of
its members: below that a batch is tried again, from there on the last member has its way.

Results:
- `decide_flatten`, `canHandle_flatten`: what a nested policy decides is what its members decide.
- `validateMembers_ok`, `validateMembers_error`: what the check accepts, and what it reports.
- `nesting_immaterial`: nested chains mean their flattening.
- `WellFormed.decide_first`, `decide_waiting`, `decide_spent`: what a valid policy decides.
-/
namespace Relay

/-- The delay of a retry, where it fits. -/
theorem RetryPolicy.delay_fits (r : RetryPolicy) (n : UInt32)
    (h : r.initialDelay + r.delayIncrement * (n.toNat - 1) < durationLimit) :
    r.delay n = .ok (r.initialDelay + r.delayIncrement * (n.toNat - 1)) := by
  unfold RetryPolicy.delay
  rw [if_neg (by omega), if_neg (by omega)]

namespace Policy

/-! ## Flattening -/

/-- A policy that has no members. -/
def Single : Policy → Prop
  | .chain _ => False
  | _ => True

mutual

/-- No chain is left among the members. -/
theorem single_of_flatten {q : Policy} : ∀ {p : Policy}, q ∈ flatten p → q.Single
  | .skip, h => by cases List.mem_singleton.mp h; trivial
  | .retry _, h => by cases List.mem_singleton.mp h; trivial
  | .move _ _, h => by cases List.mem_singleton.mp h; trivial
  | .chain _, h => single_of_flattenAll h

theorem single_of_flattenAll {q : Policy} : ∀ {ps : List Policy}, q ∈ flattenAll ps → q.Single
  | [], h => by cases h
  | _ :: _, h => (List.mem_append.mp h).elim single_of_flatten single_of_flattenAll

end

theorem flatten_single {p : Policy} (h : p.Single) : flatten p = [p] := by
  cases p with
  | chain ps => cases h
  | _ => rfl

theorem flattenAll_single {ps : List Policy} (h : ∀ p ∈ ps, p.Single) : flattenAll ps = ps := by
  induction ps with
  | nil => rfl
  | cons p ps ih =>
    obtain ⟨hp, hps⟩ := List.forall_mem_cons.mp h
    rw [flattenAll, flatten_single hp, ih hps, List.singleton_append]

theorem flattenAll_flattenAll (ps : List Policy) : flattenAll (flattenAll ps) = flattenAll ps :=
  flattenAll_single fun _ => single_of_flattenAll

/-! ## Decisions -/

section
variable {n : UInt32} {ps qs : List Policy}

theorem canHandleAny_append :
    canHandleAny n (ps ++ qs) = (canHandleAny n ps || canHandleAny n qs) := by
  induction ps with
  | nil => rfl
  | cons p ps ih => rw [List.cons_append, canHandleAny, canHandleAny, ih, Bool.or_assoc]

theorem decideFirst_append :
    decideFirst n (ps ++ qs) =
      if canHandleAny n ps then decideFirst n ps else decideFirst n qs := by
  induction ps with
  | nil => rfl
  | cons p ps ih =>
    rw [List.cons_append, decideFirst, decideFirst, canHandleAny, ih]
    cases canHandle n p <;> rfl

/-- Members that do not take charge have no say. -/
theorem decideFirst_behind (h : ∀ p ∈ ps, canHandle n p = false) :
    decideFirst n (ps ++ qs) = decideFirst n qs := by
  induction ps with
  | nil => rfl
  | cons p ps ih =>
    obtain ⟨hp, hps⟩ := List.forall_mem_cons.mp h
    rw [List.cons_append, decideFirst, if_neg (by simp [hp]), ih hps]

end

/-- A single policy that does not take charge is one whose decision is fatal. -/
theorem decideFirst_single {n : UInt32} {p : Policy} (h : p.Single) :
    decideFirst n [p] = decide n p := by
  unfold decideFirst
  split
  · rfl
  · next hn =>
    cases p with
    | retry r =>
      have hspent : ¬ n < r.maxFailedAttempts := by simpa [canHandle] using hn
      rw [decideFirst, decide, if_neg hspent]
    | skip | move => simp [canHandle] at hn
    | chain ps => cases h

mutual

theorem canHandle_flatten (n : UInt32) : ∀ p : Policy, canHandleAny n (flatten p) = canHandle n p
  | .skip => rfl
  | .retry _ => Bool.or_false _
  | .move _ _ => rfl
  | .chain ps => canHandle_flattenAll n ps

theorem canHandle_flattenAll (n : UInt32) :
    ∀ ps : List Policy, canHandleAny n (flattenAll ps) = canHandleAny n ps
  | [] => rfl
  | p :: ps => by
    rw [flattenAll, canHandleAny_append, canHandle_flatten n p, canHandle_flattenAll n ps,
      canHandleAny]

end

mutual

/-- **What a policy decides is what the first of its members that takes charge decides.** -/
theorem decide_flatten (n : UInt32) : ∀ p : Policy, decideFirst n (flatten p) = decide n p
  | .skip => rfl
  | .retry _ => decideFirst_single trivial
  | .move _ _ => rfl
  | .chain ps => decide_flattenAll n ps

theorem decide_flattenAll (n : UInt32) :
    ∀ ps : List Policy, decideFirst n (flattenAll ps) = decideFirst n ps
  | [] => rfl
  | p :: ps => by
    rw [flattenAll, decideFirst_append, canHandle_flatten n p, decide_flatten n p,
      decide_flattenAll n ps, decideFirst]

end

/-! ## Checks -/

/-- The number of failed attempts from which on a policy without members does not have a batch tried
again. One that skips has room for one. -/
def limit : Policy → Nat
  | .skip => 1
  | .retry r => r.maxFailedAttempts.toNat
  | .move _ n => n.toNat
  | .chain _ => 0

/-- The policy ends a chain. -/
def Terminal : Policy → Prop
  | .skip => True
  | .move .. => True
  | _ => False

/-- What is wrong with a member of a flat chain, at its end or before it: it has room for no
attempt, or, if it has, its place is the last one. -/
inductive Fault (last : Bool) : Policy → PolicyError → Prop
  | retry {r : RetryPolicy} (h : r.maxFailedAttempts.toNat = 0) :
    Fault last (.retry r) .zeroAttempts
  | move {e : Endpoint} {n : UInt32} (h : n.toNat = 0) : Fault last (.move e n) .zeroAttempts
  | skipEarly (h : last = false) : Fault last .skip (.notLast "Skip")
  | moveEarly {e : Endpoint} {n : UInt32} (hn : 1 ≤ n.toNat) (h : last = false) :
    Fault last (.move e n) (.notLast "Move")

/-- A flat chain that can be used: every member has room for an attempt, and those that end a chain
stand last. -/
structure WellFormed (flat : List Policy) : Prop where
  nonempty : flat ≠ []
  room : ∀ q ∈ flat, 1 ≤ q.limit
  ends : ∀ q ∈ flat.dropLast, ¬ q.Terminal

/-- What is reported of a flat chain: that it is empty, or the fault of its first member that has
one. -/
def FirstFault (flat : List Policy) (e : PolicyError) : Prop :=
  (flat = [] ∧ e = .emptyChain) ∨ ∃ before q after, flat = before ++ q :: after ∧
    (∀ x ∈ before, ∀ e', ¬ Fault false x e') ∧ Fault after.isEmpty q e

section
variable {q : Policy} {last : Bool} {e : PolicyError} {flat : List Policy}

/-- The checks of one member, its limit before its place. -/
theorem fault_iff : (validateLeaf q >>= fun _ => validatePlace last q) = .error e ↔
    Fault last q e := by
  have hzero : ∀ n : UInt32, n = 0 ↔ n.toNat = 0 := fun n => UInt32.toNat_inj.symm
  constructor
  · intro h
    cases q with
    | skip =>
      cases last with
      | true => cases h
      | false => cases h; exact .skipEarly rfl
    | retry r =>
      by_cases hr : r.maxFailedAttempts = 0
      · rw [validateLeaf, if_pos hr] at h
        cases h
        exact .retry ((hzero _).mp hr)
      · rw [validateLeaf, if_neg hr] at h
        cases h
    | move target n =>
      by_cases hn : n = 0
      · rw [validateLeaf, if_pos hn] at h
        cases h
        exact .move ((hzero _).mp hn)
      · rw [validateLeaf, if_neg hn] at h
        cases last with
        | true => cases h
        | false => cases h; exact .moveEarly (Nat.one_le_iff_ne_zero.mpr (mt (hzero n).mpr hn)) rfl
    | chain ps => cases h
  · intro h
    cases h with
    | retry h => rw [validateLeaf, if_pos ((hzero _).mpr h)]; rfl
    | move h => rw [validateLeaf, if_pos ((hzero _).mpr h)]; rfl
    | skipEarly h => rw [h]; rfl
    | moveEarly hn h =>
      rw [validateLeaf, if_neg (mt (hzero _).mp (Nat.ne_of_gt hn)), h]
      rfl

/-- A member has no fault if it has room for an attempt and stands where it may. -/
theorem faultless_iff (hq : q.Single) :
    (∀ e, ¬ Fault last q e) ↔ 1 ≤ q.limit ∧ (last = false → ¬ q.Terminal) := by
  constructor
  · intro h
    cases q with
    | skip => exact ⟨Nat.le_refl 1, fun hl _ => h _ (.skipEarly hl)⟩
    | retry r => exact ⟨Nat.one_le_iff_ne_zero.mpr fun hr => h _ (.retry hr), fun _ => id⟩
    | move target n =>
      have hn : 1 ≤ n.toNat := Nat.one_le_iff_ne_zero.mpr fun hn => h _ (.move hn)
      exact ⟨hn, fun hl _ => h _ (.moveEarly hn hl)⟩
    | chain ps => cases hq
  · rintro ⟨hroom, hplace⟩ e hf
    cases hf with
    | retry h | move h => exact absurd h (Nat.ne_of_gt hroom)
    | skipEarly h | moveEarly _ h => exact hplace h trivial

theorem validateMembers_cons (q : Policy) (ps : List Policy) : validateMembers (q :: ps) =
    (validateLeaf q >>= fun _ => validatePlace ps.isEmpty q) >>= fun _ => validateMembers ps := by
  rw [validateMembers]
  cases validateLeaf q <;> rfl

/-- A member without fault leaves the check to those behind it. -/
theorem validateMembers_behind {ps : List Policy} (h : ∀ e, ¬ Fault ps.isEmpty q e) :
    validateMembers (q :: ps) = validateMembers ps := by
  rw [validateMembers_cons]
  cases hc : (validateLeaf q >>= fun _ => validatePlace ps.isEmpty q) with
  | error e => exact absurd (fault_iff.mp hc) (h e)
  | ok _ => rfl

/-- The fault of a member is reported at once. -/
theorem validateMembers_fault {ps : List Policy} (h : Fault ps.isEmpty q e) :
    validateMembers (q :: ps) = .error e := by
  rw [validateMembers_cons, fault_iff.mpr h]
  rfl

/-- **What the check accepts.** -/
theorem validateMembers_ok (hs : ∀ q ∈ flat, q.Single) : validateMembers flat = .ok () ↔
    (∀ q ∈ flat, 1 ≤ q.limit) ∧ ∀ q ∈ flat.dropLast, ¬ q.Terminal := by
  induction flat with
  | nil => exact ⟨fun _ => ⟨nofun, nofun⟩, fun _ => rfl⟩
  | cons q ps ih =>
    obtain ⟨hq, hps⟩ := List.forall_mem_cons.mp hs
    have ih := ih hps
    -- what the place of the first member asks of it
    have hplace : (∀ x ∈ (q :: ps).dropLast, ¬ x.Terminal) ↔
        (ps.isEmpty = false → ¬ q.Terminal) ∧ ∀ x ∈ ps.dropLast, ¬ x.Terminal := by
      cases ps with
      | nil => simp
      | cons p ps => simp
    by_cases hf : ∃ e, Fault ps.isEmpty q e
    · obtain ⟨e, hf⟩ := hf
      rw [validateMembers_fault hf]
      refine ⟨fun h => (by cases h), fun ⟨hroom, hends⟩ => ?_⟩
      have hfaultless : ∀ e, ¬ Fault ps.isEmpty q e :=
        (faultless_iff hq).mpr ⟨hroom q List.mem_cons_self, (hplace.mp hends).1⟩
      exact absurd hf (hfaultless e)
    · have hnone : ∀ e, ¬ Fault ps.isEmpty q e := not_exists.mp hf
      obtain ⟨hroom, hends⟩ := (faultless_iff hq).mp hnone
      rw [validateMembers_behind hnone, ih, hplace, List.forall_mem_cons]
      exact ⟨fun h => ⟨⟨hroom, h.1⟩, hends, h.2⟩, fun h => ⟨h.1.2, h.2.2⟩⟩

/-- **What the check reports.** -/
theorem validateMembers_error : validateMembers flat = .error e ↔
    ∃ before q after, flat = before ++ q :: after ∧
      (∀ x ∈ before, ∀ e', ¬ Fault false x e') ∧ Fault after.isEmpty q e := by
  induction flat with
  | nil =>
    refine ⟨fun h => (by cases h), ?_⟩
    rintro ⟨before, q, after, h, -⟩
    simp at h
  | cons p ps ih =>
    by_cases hf : ∃ e', Fault ps.isEmpty p e'
    · obtain ⟨e', hf⟩ := hf
      rw [validateMembers_fault hf]
      constructor
      · intro h
        cases h
        exact ⟨[], p, ps, rfl, nofun, hf⟩
      · rintro ⟨before, q, after, heq, hbefore, hq⟩
        rcases List.cons_eq_append_iff.mp heq with ⟨rfl, heq⟩ | ⟨before, rfl, rfl⟩
        · cases heq
          rw [← fault_iff.mpr hf, fault_iff.mpr hq]
        · -- the first member has a fault, so it is not one of those before
          have hsome : (before ++ q :: after).isEmpty = false := by simp
          rw [hsome] at hf
          exact absurd hf (hbefore p List.mem_cons_self e')
    · have hnone : ∀ e', ¬ Fault ps.isEmpty p e' := not_exists.mp hf
      rw [validateMembers_behind hnone, ih]
      constructor
      · rintro ⟨before, q, after, rfl, hbefore, hq⟩
        have hsome : (before ++ q :: after).isEmpty = false := by simp
        rw [hsome] at hnone
        exact ⟨p :: before, q, after, rfl, List.forall_mem_cons.mpr ⟨hnone, hbefore⟩, hq⟩
      · rintro ⟨before, q, after, heq, hbefore, hq⟩
        rcases List.cons_eq_append_iff.mp heq with ⟨rfl, heq⟩ | ⟨before, rfl, rfl⟩
        · cases heq
          exact absurd hq (hnone e)
        · exact ⟨before, q, after, rfl, fun x hx => hbefore x (List.mem_cons_of_mem _ hx), hq⟩

end

section
variable {ps : List Policy} {e : PolicyError}

theorem validate_flattened (ps : List Policy) :
    validate (.chain ps) = validate (.chain (flattenAll ps)) := by
  rw [validate, validate, flattenAll_flattenAll]

theorem validate_empty (h : flattenAll ps = []) : validate (.chain ps) = .error .emptyChain := by
  rw [validate, h]

theorem validate_members (h : flattenAll ps ≠ []) :
    validate (.chain ps) = validateMembers (flattenAll ps) := by
  rw [validate]
  split
  · next hnone => exact absurd hnone h
  · rfl

theorem validate_chain_ok : validate (.chain ps) = .ok () ↔ WellFormed (flattenAll ps) := by
  by_cases hnone : flattenAll ps = []
  · rw [validate_empty hnone]
    exact ⟨nofun, fun h => absurd hnone h.nonempty⟩
  · rw [validate_members hnone, validateMembers_ok fun q => single_of_flattenAll]
    exact ⟨fun h => ⟨hnone, h.1, h.2⟩, fun h => ⟨h.room, h.ends⟩⟩

theorem validate_chain_error : validate (.chain ps) = .error e ↔ FirstFault (flattenAll ps) e := by
  by_cases hnone : flattenAll ps = []
  · rw [validate_empty hnone]
    constructor
    · intro h
      cases h
      exact .inl ⟨hnone, rfl⟩
    · rintro (⟨-, rfl⟩ | ⟨before, q, after, h, -⟩)
      · rfl
      · rw [hnone] at h
        simp at h
  · rw [validate_members hnone, validateMembers_error]
    exact ⟨.inr, fun h => h.resolve_left fun hempty => hnone hempty.1⟩

/-- A chain is built as the flat one, if that is accepted. -/
theorem mkChain_eq (ps : List Policy) :
    mkChain ps = (validate (.chain ps)).map fun _ => .chain (flattenAll ps) := by
  rw [validate_flattened]
  unfold mkChain
  cases validate (.chain (flattenAll ps)) <;> rfl

theorem mkChain_ok {p : Policy} :
    mkChain ps = .ok p ↔ WellFormed (flattenAll ps) ∧ p = .chain (flattenAll ps) := by
  rw [mkChain_eq, ← validate_chain_ok]
  cases validate (.chain ps) with
  | error e => exact ⟨nofun, nofun⟩
  | ok _ =>
    constructor
    · intro h
      cases h
      exact ⟨rfl, rfl⟩
    · rintro ⟨-, rfl⟩
      rfl

theorem mkChain_error : mkChain ps = .error e ↔ FirstFault (flattenAll ps) e := by
  rw [mkChain_eq, ← validate_chain_error]
  cases validate (.chain ps) with
  | error e' => exact ⟨fun h => by cases h; rfl, fun h => by cases h; rfl⟩
  | ok _ => exact ⟨nofun, nofun⟩

end

/-- **Nested chains mean their flattening**, which has no chain among its members. A policy takes
charge when the flat chain of its members does, and decides the same. A chain is checked as its
flattening is, also as the policy of a consumer: it is accepted if that is well formed, and else the
first fault of that is reported. What is built from policies is their flat chain. -/
theorem nesting_immaterial :
    (∀ p : Policy, (∀ q ∈ p.flatten, q.Single) ∧ ∀ n,
      canHandle n p = canHandle n (.chain p.flatten) ∧ decide n p = decide n (.chain p.flatten)) ∧
    ∀ ps : List Policy,
      validate (.chain ps) = validate (.chain (flattenAll ps)) ∧
      (∀ batch, (ConsumerSettings.mk batch (some (.chain ps))).validate =
        validate (.chain (flattenAll ps))) ∧
      (validate (.chain ps) = .ok () ↔ WellFormed (flattenAll ps)) ∧
      (∀ e, validate (.chain ps) = .error e ↔ FirstFault (flattenAll ps) e) ∧
      (∀ p, mkChain ps = .ok p ↔ WellFormed (flattenAll ps) ∧ p = .chain (flattenAll ps)) ∧
      ∀ e, mkChain ps = .error e ↔ FirstFault (flattenAll ps) e := by
  refine ⟨fun p => ⟨fun _ => single_of_flatten, fun n => ?_⟩, fun ps => ⟨?_, ?_, ?_, ?_, ?_, ?_⟩⟩
  · exact ⟨(canHandle_flatten n p).symm, (decide_flatten n p).symm⟩
  · exact validate_flattened ps
  · exact fun _ => validate_flattened ps
  · exact validate_chain_ok
  · exact fun e => validate_chain_error
  · exact fun p => mkChain_ok
  · exact fun e => mkChain_error

/-- A move with room for no attempt is reported for that, wherever it stands. -/
example : mkChain [.chain [.move ⟨"dead letters", none, []⟩ 0], .chain [.skip]] =
    .error .zeroAttempts := rfl

/-! ## Valid policies -/

/-- A valid policy, a chain or not, is well formed once it is flat. -/
theorem wellFormed_of_valid {p : Policy} (h : p.validate = .ok ()) : WellFormed p.flatten := by
  -- a policy without members is checked on its own
  have hsingle : p.Single → validateLeaf p = .ok () → WellFormed p.flatten := by
    intro hs hleaf
    rw [flatten_single hs]
    have hmembers : validateMembers [p] = .ok () := by
      rw [validateMembers, hleaf]
      cases p <;> rfl
    have hall : ∀ q ∈ [p], q.Single := fun q hq => List.mem_singleton.mp hq ▸ hs
    obtain ⟨hroom, hends⟩ := (validateMembers_ok hall).mp hmembers
    exact ⟨List.cons_ne_nil _ _, hroom, hends⟩
  cases p with
  | chain ps => exact validate_chain_ok.mp h
  | skip | retry | move => exact hsingle trivial h

/-- Has a batch tried again as long as fewer than so many attempts have failed, by the first member
of the flat chain that does. -/
def FirstAbove (n : UInt32) (flat : List Policy) (r : RetryPolicy) : Prop :=
  ∃ before after, flat = before ++ .retry r :: after ∧
    (∀ r', .retry r' ∈ before → r'.maxFailedAttempts ≤ n) ∧ n < r.maxFailedAttempts

/-- What a policy without members has done once it does not have a batch tried again any more. -/
def verdict : Policy → Action
  | .skip => .skip
  | .move e _ => .move e
  | _ => .fatal

section
variable {flat before after : List Policy} {q : Policy} {n : UInt32} {r : RetryPolicy} {N : Nat}

/-- All members but the last are retries. -/
theorem WellFormed.retries (h : WellFormed flat) (hs : ∀ q ∈ flat, q.Single)
    (heq : flat = before ++ q :: after) {x : Policy} (hx : x ∈ before) : ∃ r, x = .retry r := by
  have hearly : x ∈ flat.dropLast := by
    rw [heq, List.dropLast_append_of_ne_nil (List.cons_ne_nil q after)]
    exact List.mem_append_left _ hx
  have hsingle : x.Single := hs x ((List.dropLast_sublist flat).subset hearly)
  have hends := h.ends x hearly
  cases x with
  | retry r => exact ⟨r, rfl⟩
  | skip | move => exact absurd trivial hends
  | chain ps => cases hsingle

/-- Retries that are used up have no say. -/
theorem WellFormed.decide_behind (h : WellFormed flat) (hs : ∀ q ∈ flat, q.Single)
    (heq : flat = before ++ q :: after)
    (hspent : ∀ r, .retry r ∈ before → r.maxFailedAttempts ≤ n) :
    decideFirst n flat = decideFirst n (q :: after) := by
  rw [heq]
  refine decideFirst_behind fun x hx => ?_
  obtain ⟨r, rfl⟩ := h.retries hs heq hx
  simpa [canHandle] using hspent r hx

/-- **The first retry that is not used up has the batch tried again** after its delay. -/
theorem WellFormed.decide_first (h : WellFormed flat) (hs : ∀ q ∈ flat, q.Single)
    (hr : FirstAbove n flat r) : decideFirst n flat = (r.delay n).map .retry := by
  obtain ⟨before, after, heq, hspent, hlt⟩ := hr
  rw [h.decide_behind hs heq hspent, decideFirst, if_pos (by simpa [canHandle] using hlt), decide,
    if_pos hlt]

/-- Some retry is not used up, and one of those is the first, or all of them are. -/
theorem firstAbove_or_spent (n : UInt32) (flat : List Policy) :
    (∃ r, FirstAbove n flat r) ∨ ∀ r, .retry r ∈ flat → r.maxFailedAttempts ≤ n := by
  induction flat with
  | nil => exact .inr nofun
  | cons q qs ih =>
    by_cases hq : ∃ r, q = .retry r ∧ n < r.maxFailedAttempts
    · obtain ⟨r, rfl, hlt⟩ := hq
      exact .inl ⟨r, [], qs, rfl, nofun, hlt⟩
    · have hspent : ∀ r, .retry r = q → r.maxFailedAttempts ≤ n := fun r hr =>
        UInt32.not_lt.mp fun hlt => hq ⟨r, hr.symm, hlt⟩
      rcases ih with ⟨r, before, after, rfl, hbefore, hlt⟩ | hall
      · refine .inl ⟨r, q :: before, after, rfl, fun r' hr' => ?_, hlt⟩
        exact (List.mem_cons.mp hr').elim (hspent r') (hbefore r')
      · exact .inr fun r' hr' => (List.mem_cons.mp hr').elim (hspent r') (hall r')

/-- The largest limit of the members. -/
def IsThreshold (flat : List Policy) (N : Nat) : Prop :=
  IsGreatest {n | ∃ q ∈ flat, q.limit = n} N

theorem WellFormed.exists_threshold (h : WellFormed flat) : ∃ N, IsThreshold flat N := by
  have hpos : 0 < (flat.map limit).length := by
    rw [List.length_map]
    exact List.length_pos_iff.mpr h.nonempty
  refine ⟨(flat.map limit).maximum_of_length_pos hpos, ?_, ?_⟩
  · exact List.mem_map.mp (List.maximum_of_length_pos_mem hpos)
  · rintro n ⟨q, hq, rfl⟩
    exact List.le_maximum_of_length_pos_of_mem (List.mem_map_of_mem hq) hpos

/-- A member that ends a chain is the last one. -/
theorem WellFormed.last (h : WellFormed flat) (heq : flat = before ++ q :: after)
    (hq : q.Terminal) : flat.getLast? = some q := by
  cases after with
  | nil => rw [heq, List.getLast?_append, List.getLast?_singleton, Option.some_or]
  | cons x after =>
    refine absurd hq (h.ends q ?_)
    rw [heq, List.dropLast_append_of_ne_nil (List.cons_ne_nil _ _)]
    exact List.mem_append_right _ List.mem_cons_self

/-- **Below the threshold a batch is tried again**, by the last member, a move, at once if every
retry is used up. -/
theorem WellFormed.decide_waiting (h : WellFormed flat) (hs : ∀ q ∈ flat, q.Single)
    (hN : IsThreshold flat N) (hpos : 1 ≤ n.toNat) (hlt : n.toNat < N)
    (hspent : ∀ r, .retry r ∈ flat → r.maxFailedAttempts ≤ n) :
    (∃ e m, flat.getLast? = some (.move e m) ∧ n < m) ∧ decideFirst n flat = .ok (.retry 0) := by
  obtain ⟨q, hq, rfl⟩ := hN.1
  obtain ⟨before, after, heq⟩ := List.append_of_mem hq
  have hbefore : ∀ r, .retry r ∈ before → r.maxFailedAttempts ≤ n := fun r hr =>
    hspent r (by rw [heq]; exact List.mem_append_left _ hr)
  rw [h.decide_behind hs heq hbefore, decideFirst]
  cases q with
  | move e m =>
    have hcharge : canHandle n (.move e m) = true := rfl
    have hm : n < m := UInt32.lt_iff_toNat_lt.mpr hlt
    rw [if_pos hcharge, decide, if_pos hm]
    exact ⟨⟨e, m, h.last heq trivial, hm⟩, rfl⟩
  | retry r => exact absurd (hspent r hq) (UInt32.not_le.mpr (UInt32.lt_iff_toNat_lt.mpr hlt))
  | skip => exact absurd hpos (Nat.not_le_of_lt hlt)
  | chain ps => exact absurd (Nat.zero_le _) (Nat.not_le_of_lt hlt)

/-- **From the threshold on the last member has its way.** -/
theorem WellFormed.decide_spent (h : WellFormed flat) (hs : ∀ q ∈ flat, q.Single)
    (hN : IsThreshold flat N) (hle : N ≤ n.toNat) :
    ∃ q, flat.getLast? = some q ∧ decideFirst n flat = .ok q.verdict := by
  have hlast := List.dropLast_append_getLast h.nonempty
  have hlimit : ∀ q ∈ flat, q.limit ≤ n.toNat := fun q hq => (hN.2 ⟨q, hq, rfl⟩).trans hle
  have hspent : ∀ r, .retry r ∈ flat → r.maxFailedAttempts ≤ n := fun r hr =>
    UInt32.le_iff_toNat_le.mpr (hlimit _ hr)
  refine ⟨flat.getLast h.nonempty, List.getLast?_eq_some_getLast h.nonempty, ?_⟩
  rw [h.decide_behind hs hlast.symm fun r hr => hspent r ((List.dropLast_sublist flat).subset hr)]
  have hmem := List.getLast_mem h.nonempty
  rw [decideFirst_single (hs _ hmem)]
  generalize flat.getLast h.nonempty = q at hmem
  cases q with
  | skip => rfl
  | retry r => rw [decide, if_neg (UInt32.not_lt.mpr (hspent r hmem))]; rfl
  | move e m =>
    have hm : ¬ n < m := UInt32.not_lt.mpr (UInt32.le_iff_toNat_le.mpr (hlimit _ hmem))
    rw [decide, if_neg hm]
    rfl
  | chain ps => cases hs _ hmem

end

end Policy

end Relay
