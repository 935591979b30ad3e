import Relay.Backoff
/-!
# How far a retry goes

The outcomes of an operation are a sequence without end, from which a retry takes as many as it makes
calls; `Backoff.run` is given a number of them in advance. `Backoff.Ends` tells which call is the last.

Results:
- `run_ends`: the calls up to the last one are made, each so much later than the one before as the
  backoff says, and the outcome of the last one is the result.
- `run_open`: as long as no call was the last one, a call is made for every outcome there is.
- `ends_unique`, `exists_ends_iff`: there is at most one last call, and there is one if the delays run
  out or an outcome is anything but a transient failure.
- `replay_ends`: the same for a script whose last outcome repeats.
-/
namespace Relay

variable {ε α : Type}

namespace Outcome

/-- What the caller is given if no other call follows. -/
def result : Outcome ε α → Except ε α
  | .success a => .ok a
  | .transient e => .error e
  | .permanent e => .error e

def isTransient : Outcome ε α → Bool
  | .transient _ => true
  | _ => false

end Outcome

namespace Backoff

variable {b : Backoff} {o : Nat → Outcome ε α} {i n last : Nat}

/-! ## The last call -/

/-- When call `i` is made if all those before it have failed for the time being. -/
def callTime (b : Backoff) (start : Nat) : Nat → Nat
  | 0 => start
  | i + 1 => b.callTime start i + b.delay i

/-- The first outcomes, so many of them. -/
def first (o : Nat → Outcome ε α) (n : Nat) : List (Outcome ε α) := (List.range n).map o

/-- No call follows call `last`, counted from zero. -/
structure Ends (b : Backoff) (o : Nat → Outcome ε α) (last : Nat) : Prop where
  /-- Those before it have failed for the time being. -/
  before : ∀ i < last, (o i).isTransient = true
  /-- There was a delay after each of them. -/
  within : ∀ m, b.maxTimes = some m → last ≤ m
  /-- It is another outcome, or there is no delay left. -/
  stop : (o last).isTransient = false ∨ b.maxTimes = some last

/-- Another call follows call `i`. -/
def GoesOn (b : Backoff) (o : Nat → Outcome ε α) (i : Nat) : Prop :=
  (o i).isTransient = true ∧ ∀ m, b.maxTimes = some m → i < m

theorem ends_iff : b.Ends o last ↔ (∀ i < last, b.GoesOn o i) ∧ ¬ b.GoesOn o last := by
  constructor
  · intro h
    refine ⟨fun i hi => ⟨h.before i hi, fun m hm => ?_⟩, fun ⟨ht, hm⟩ => ?_⟩
    · have := h.within m hm
      omega
    · rcases h.stop with hover | hspent
      · rw [hover] at ht
        cases ht
      · exact Nat.lt_irrefl last (hm last hspent)
  · rintro ⟨hon, hstop⟩
    refine ⟨fun i hi => (hon i hi).1, fun m hm => ?_, ?_⟩
    · by_cases hle : last ≤ m
      · exact hle
      · exact absurd ((hon m (by omega)).2 m hm) (Nat.lt_irrefl m)
    · cases ht : (o last).isTransient with
      | false => exact .inl rfl
      | true =>
        -- the delays have run out, exactly here since there were enough before
        by_cases hspent : b.maxTimes = some last
        · exact .inr hspent
        · refine absurd ⟨ht, fun m hm => ?_⟩ hstop
          rcases Nat.lt_trichotomy last m with hlt | rfl | hgt
          · exact hlt
          · exact absurd hm hspent
          · exact absurd ((hon m hgt).2 m hm) (Nat.lt_irrefl m)

theorem ends_unique {last' : Nat} (h : b.Ends o last) (h' : b.Ends o last') : last = last' := by
  obtain ⟨hon, hstop⟩ := ends_iff.mp h
  obtain ⟨hon', hstop'⟩ := ends_iff.mp h'
  rcases Nat.lt_trichotomy last last' with hlt | heq | hgt
  · exact absurd (hon' last hlt) hstop
  · exact heq
  · exact absurd (hon last' hgt) hstop'

theorem goesOn_of_open (h : ∀ last < n, ¬ b.Ends o last) : ∀ i < n, b.GoesOn o i := by
  intro i
  induction i using Nat.strongRecOn with
  | ind i ih =>
    intro hi
    by_cases hon : b.GoesOn o i
    · exact hon
    · exact absurd (ends_iff.mpr ⟨fun j hj => ih j hj (by omega), hon⟩) (h i hi)

/-- **A retry ends** unless the delays never run out and every outcome is a transient failure. -/
theorem exists_ends_iff :
    (∃ last, b.Ends o last) ↔ b.maxTimes.isSome = true ∨ ∃ i, (o i).isTransient = false := by
  constructor
  · rintro ⟨last, h⟩
    rcases h.stop with hover | hspent
    · exact .inr ⟨last, hover⟩
    · exact .inl (by rw [hspent]; rfl)
  · intro h
    by_cases hends : ∃ last, b.Ends o last
    · exact hends
    · have hon : ∀ i, b.GoesOn o i := fun i =>
        goesOn_of_open (n := i + 1) (fun last _ hl => hends ⟨last, hl⟩) i (Nat.lt_succ_self i)
      rcases h with h | ⟨i, hi⟩
      · obtain ⟨m, hm⟩ := Option.isSome_iff_exists.mp h
        exact absurd ((hon m).2 m hm) (Nat.lt_irrefl m)
      · rw [(hon i).1] at hi
        cases hi

/-! ## What follows a call -/

theorem delay?_left (h : ∀ m, b.maxTimes = some m → i < m) : b.delay? i = some (b.delay i) := by
  unfold delay?
  cases hb : b.maxTimes with
  | none => rfl
  | some m => exact if_pos (h m hb)

theorem delay?_spent (h : ¬ ∀ m, b.maxTimes = some m → i < m) : b.delay? i = none := by
  unfold delay?
  cases hb : b.maxTimes with
  | none =>
    rw [hb] at h
    simp at h
  | some m =>
    refine if_neg fun hlt => h fun m' hm' => ?_
    rw [hb] at hm'
    cases hm'
    exact hlt

/-- **Between two calls the delay passes.** -/
theorem verdict_goesOn (h : b.GoesOn o i) : b.verdict i (o i) = .sleep (b.delay i) := by
  obtain ⟨ht, hm⟩ := h
  unfold verdict
  cases ho : o i with
  | transient e =>
    dsimp only
    rw [delay?_left hm]
  | success | permanent =>
    rw [ho] at ht
    cases ht

/-- **After the last call nothing is waited for.** -/
theorem verdict_over (h : ¬ b.GoesOn o i) : b.verdict i (o i) = .finished (o i).result := by
  unfold verdict
  cases ho : o i with
  | transient e =>
    have hspent : b.delay? i = none := delay?_spent fun hm => h ⟨by rw [ho]; rfl, hm⟩
    dsimp only
    rw [hspent]
    rfl
  | success | permanent => rfl

/-! ## Runs -/

theorem run_sleep {now ms : Nat} {x : Outcome ε α} {xs : List (Outcome ε α)}
    (h : b.verdict i x = .sleep ms) :
    b.run now i (x :: xs) =
      ⟨now :: (b.run (now + ms) (i + 1) xs).times, (b.run (now + ms) (i + 1) xs).result⟩ := by
  rw [run, h]

theorem run_finished {now : Nat} {x : Outcome ε α} {xs : List (Outcome ε α)} {r : Except ε α}
    (h : b.verdict i x = .finished r) : b.run now i (x :: xs) = ⟨[now], some r⟩ := by
  rw [run, h]

/-- Calls that others follow, and those that follow them. -/
theorem run_goesOn (start : Nat) (hon : ∀ j, i ≤ j → j < i + n → b.GoesOn o j)
    (rest : List (Outcome ε α)) :
    b.run (b.callTime start i) i ((List.range' i n).map o ++ rest) =
      ⟨(List.range' i n).map (b.callTime start) ++
          (b.run (b.callTime start (i + n)) (i + n) rest).times,
        (b.run (b.callTime start (i + n)) (i + n) rest).result⟩ := by
  induction n generalizing i with
  | zero => rfl
  | succ n ih =>
    have hlater := ih (i := i + 1) fun j hj hlt => hon j (by omega) (by omega)
    rw [show i + 1 + n = i + (n + 1) by omega] at hlater
    rw [List.range'_succ, List.map_cons, List.map_cons, List.cons_append, List.cons_append,
      run_sleep (verdict_goesOn (hon i (by omega) (by omega)))]
    change Calls.mk (_ :: (b.run (b.callTime start (i + 1)) (i + 1) _).times)
      (b.run (b.callTime start (i + 1)) (i + 1) _).result = _
    rw [hlater]

/-- **As long as no call was the last one**, a call is made for every outcome. -/
theorem run_open (h : ∀ last < n, ¬ b.Ends o last) (start : Nat) :
    b.run start 0 (first o n) = ⟨(List.range n).map (b.callTime start), none⟩ := by
  have hrun := run_goesOn start (i := 0) (n := n) (fun j _ hj => goesOn_of_open h j (by omega)) []
  rw [List.append_nil] at hrun
  unfold first
  rw [List.range_eq_range']
  refine hrun.trans ?_
  rw [run, List.append_nil]

/-- **The calls are made up to the last one**, and its outcome is the result. -/
theorem run_ends (h : b.Ends o last) (hn : last < n) (start : Nat) :
    b.run start 0 (first o n) =
      ⟨(List.range (last + 1)).map (b.callTime start), some (o last).result⟩ := by
  obtain ⟨hon, hstop⟩ := ends_iff.mp h
  obtain ⟨k, rfl⟩ : ∃ k, n = last + 1 + k := ⟨n - (last + 1), by omega⟩
  have hsplit : first o (last + 1 + k) =
      (List.range' 0 last).map o ++ o last :: (List.range k).map fun j => o (last + 1 + j) := by
    unfold first
    rw [List.range_add, List.range_succ, List.range_eq_range', List.map_append, List.map_append,
      List.append_assoc, List.map_map]
    rfl
  have hrun := run_goesOn start (i := 0) (n := last) (fun j _ hj => hon j (by omega))
    (o last :: (List.range k).map fun j => o (last + 1 + j))
  rw [hsplit]
  refine hrun.trans ?_
  rw [Nat.zero_add, run_finished (verdict_over hstop), List.range_succ, List.range_eq_range',
    List.map_append]
  rfl

/-! ## Scripts -/

/-- The outcomes of a script that ends with `x`, which repeats. -/
def repeating (script : List (Outcome ε α)) (x : Outcome ε α) (i : Nat) : Outcome ε α :=
  script.getD i x

theorem first_repeating (script : List (Outcome ε α)) (x : Outcome ε α) (k : Nat) :
    first (repeating script x) (script.length + k) = script ++ List.replicate k x := by
  refine List.ext_getElem (by simp [first]) fun j hj hj' => ?_
  by_cases hlt : j < script.length
  · simp [first, repeating, hlt]
  · simp [first, repeating, List.getElem_append, hlt]

/-- **A script is followed to its end, and its last outcome repeats for as long as it takes.** -/
theorem replay_ends {script : List (Outcome ε α)} {x : Outcome ε α}
    (h : b.Ends (repeating (script ++ [x]) x) last) :
    b.replay (script ++ [x]) =
      ⟨(List.range (last + 1)).map (b.callTime 0),
        some (repeating (script ++ [x]) x last).result⟩ := by
  have hlength : (script ++ [x]).length = script.length + 1 := by simp
  have hscript : first (repeating (script ++ [x]) x) (script.length + 1) = script ++ [x] := by
    simpa using first_repeating (script ++ [x]) x 0
  unfold replay
  by_cases hlast : last < script.length + 1
  · have hrun := run_ends h hlast 0
    rw [hscript] at hrun
    rw [hrun]
    rfl
  · -- the last outcome of the script was a transient failure, so that only the delays end the run
    have hx : ∀ i, script.length ≤ i → repeating (script ++ [x]) x i = x := by
      intro i hi
      unfold repeating
      rcases Nat.eq_or_lt_of_le hi with rfl | hlt
      · simp
      · rw [List.getD_eq_getElem?_getD, List.getElem?_eq_none (by omega), Option.getD_none]
    have hspent : b.maxTimes = some last := by
      have ht := h.before script.length (by omega)
      rw [hx _ (Nat.le_refl _)] at ht
      rcases h.stop with hover | hspent
      · rw [hx last (by omega), ht] at hover
        cases hover
      · exact hspent
    have hopen := run_open (n := script.length + 1) (fun l hl hends => by
      have := ends_unique h hends
      omega) 0
    have hprolong : b.prolong (script ++ [x]) =
        first (repeating (script ++ [x]) x) (script.length + 1 + last) := by
      have hfirst := first_repeating (script ++ [x]) x last
      rw [hlength] at hfirst
      rw [hfirst]
      unfold prolong
      simp [hspent]
    rw [hscript] at hopen
    rw [hopen, hprolong, run_ends h (by omega) 0]
    rfl

/-- Two delays, and so three calls. -/
example : (exponential 1 2 (some 2)).replay [(.transient "down" : Outcome String Unit)] =
    ⟨[0, 1, 3], some (.error "down")⟩ := rfl

end Backoff

end Relay
