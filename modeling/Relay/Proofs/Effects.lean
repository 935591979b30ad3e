import Mathlib.Order.Defs.Unbundled
import Relay.World
/-!
# Operations and the states they leave

An operation that is a sequence of others is taken apart by `bind_ok` and `bind_error`: where it
succeeds every part of it has succeeded, where it fails one part has failed and those before it
have not. `Ensures x s Q E` says how `x` ends from the state `s`: with `Q`, or with an error in
`E`. `Within R x` says that `x` moves the state along `R` whatever its outcome; for a preorder `R`
it holds of a sequence once it holds of its parts.
-/
namespace Relay

variable {ε δ σ α β : Type}

/-! ## Sequences -/

theorem bind_ok {x : EStateM ε σ α} {f : α → EStateM ε σ β} {b : β} {s t : σ}
    (h : (x >>= f) s = .ok b t) : ∃ a u, x s = .ok a u ∧ f a u = .ok b t := by
  change EStateM.bind x f s = _ at h
  unfold EStateM.bind at h
  split at h
  · next a u hx => exact ⟨a, u, hx, h⟩
  · cases h

theorem bind_error {x : EStateM ε σ α} {f : α → EStateM ε σ β} {e : ε} {s t : σ}
    (h : (x >>= f) s = .error e t) :
    x s = .error e t ∨ ∃ a u, x s = .ok a u ∧ f a u = .error e t := by
  change EStateM.bind x f s = _ at h
  unfold EStateM.bind at h
  split at h
  · next a u hx => exact Or.inr ⟨a, u, hx, h⟩
  · next e' u hx => rw [hx]; cases h; exact Or.inl rfl

theorem bind_of_ok {x : EStateM ε σ α} {f : α → EStateM ε σ β} {a : α} {s t : σ}
    (h : x s = .ok a t) : (x >>= f) s = f a t := by
  change EStateM.bind x f s = _
  simp only [EStateM.bind, h]

theorem bind_of_error {x : EStateM ε σ α} {f : α → EStateM ε σ β} {e : ε} {s t : σ}
    (h : x s = .error e t) : (x >>= f) s = .error e t := by
  change EStateM.bind x f s = _
  simp only [EStateM.bind, h]

theorem bind_get (f : σ → EStateM ε σ β) (s : σ) : (get >>= f) s = f s s := rfl

/-! ## Changing the type of the failures -/

theorem adaptExcept_ok {δ : Type} {f : ε → δ} {x : EStateM ε σ α} {a : α} {s t : σ} :
    EStateM.adaptExcept f x s = .ok a t ↔ x s = .ok a t := by
  unfold EStateM.adaptExcept
  cases x s <;> simp

theorem adaptExcept_error {δ : Type} {f : ε → δ} {x : EStateM ε σ α} {d : δ} {s t : σ} :
    EStateM.adaptExcept f x s = .error d t ↔ ∃ e, x s = .error e t ∧ f e = d := by
  unfold EStateM.adaptExcept
  cases x s with
  | ok a u => simp
  | error e u =>
    constructor
    · intro h
      cases h
      exact ⟨e, rfl, rfl⟩
    · rintro ⟨e', he, rfl⟩
      cases he
      rfl

theorem adaptExcept_bind {δ : Type} (f : ε → δ) (x : EStateM ε σ α) (g : α → EStateM ε σ β) :
    EStateM.adaptExcept f (x >>= g) =
      EStateM.adaptExcept f x >>= fun a => EStateM.adaptExcept f (g a) := by
  funext s
  simp only [EStateM.adaptExcept, bind, EStateM.bind]
  cases x s <;> rfl

/-! ## How an operation ends -/

/-- Whether the operation succeeds from the state. -/
def succeeds (x : EStateM ε σ α) (s : σ) : Bool :=
  match x s with
  | .ok _ _ => true
  | .error _ _ => false

theorem ok_of_succeeds {x : EStateM ε σ α} {s : σ} (h : succeeds x s = true) :
    ∃ a t, x s = .ok a t := by
  unfold succeeds at h
  cases hx : x s with
  | ok a t => exact ⟨a, t, rfl⟩
  | error e t => rw [hx] at h; cases h

theorem error_of_succeeds {x : EStateM ε σ α} {s : σ} (h : succeeds x s = false) :
    ∃ e t, x s = .error e t := by
  unfold succeeds at h
  cases hx : x s with
  | ok a t => rw [hx] at h; cases h
  | error e t => exact ⟨e, t, rfl⟩

/-- From the state the operation succeeds with `Q` or fails with `E`. -/
def Ensures (x : EStateM ε σ α) (s : σ) (Q : α → σ → Prop) (E : ε → Prop) : Prop :=
  match x s with
  | .ok a t => Q a t
  | .error e _ => E e

section
variable {Q : α → σ → Prop} {E : ε → Prop}

theorem ensures_intro {x : EStateM ε σ α} {s : σ} (hok : ∀ a t, x s = .ok a t → Q a t)
    (herr : ∀ e t, x s = .error e t → E e) : Ensures x s Q E := by
  unfold Ensures
  cases hx : x s with
  | ok a t => exact hok a t hx
  | error e t => exact herr e t hx

theorem ensures_pure {a : α} {s : σ} (h : Q a s) : Ensures (pure a) s Q E := h

theorem ensures_throw {e : ε} {s : σ} (h : E e) : Ensures (throw e) s Q E := h

theorem Ensures.mono {E' : ε → Prop} {x : EStateM ε σ α} {s : σ} (hx : Ensures x s Q E)
    (h : ∀ e, E e → E' e) : Ensures x s Q E' := by
  unfold Ensures at hx ⊢
  split
  · next hr => rwa [hr] at hx
  · next hr => rw [hr] at hx; exact h _ hx

theorem Ensures.ok {x : EStateM ε σ α} {s t : σ} {a : α} (hx : Ensures x s Q E)
    (h : x s = .ok a t) : Q a t := by
  rwa [Ensures, h] at hx

theorem Ensures.error {x : EStateM ε σ α} {s t : σ} {e : ε} (hx : Ensures x s Q E)
    (h : x s = .error e t) : E e := by
  rwa [Ensures, h] at hx

theorem Ensures.bind {R : β → σ → Prop} {x : EStateM ε σ α} {f : α → EStateM ε σ β} {s : σ}
    (hx : Ensures x s Q E) (hf : ∀ a t, Q a t → Ensures (f a) t R E) :
    Ensures (x >>= f) s R E := by
  refine ensures_intro ?_ ?_
  · intro b u h
    obtain ⟨a, t, h0, h1⟩ := bind_ok h
    exact (hf a t (hx.ok h0)).ok h1
  · intro e u h
    rcases bind_error h with h0 | ⟨a, t, h0, h1⟩
    · exact hx.error h0
    · exact (hf a t (hx.ok h0)).error h1

end

/-! ## Where an operation leads -/

/-- The state an operation leaves, whether it succeeds or fails. -/
def endState (x : EStateM ε σ α) (s : σ) : σ :=
  match x s with
  | .ok _ t => t
  | .error _ t => t

theorem endState_of_error {x : EStateM ε σ α} {e : ε} {s t : σ} (h : x s = .error e t) :
    endState x s = t := by
  rw [endState, h]

theorem endState_congr {x y : EStateM ε σ α} {s t : σ} (h : x s = y t) :
    endState x s = endState y t := by
  unfold endState
  rw [h]

/-- What holds after the first part and is kept by the second holds after both. -/
theorem endState_bind {P : σ → Prop} {x : EStateM ε σ α} {f : α → EStateM ε σ β} {s : σ}
    (hx : P (endState x s)) (hf : ∀ a t, x s = .ok a t → P t → P (endState (f a) t)) :
    P (endState (x >>= f) s) := by
  cases h : x s with
  | ok a t =>
    rw [endState, h] at hx
    rw [endState, bind_of_ok h]
    exact hf a t h hx
  | error e t =>
    rw [endState, h] at hx
    rwa [endState, bind_of_error h]

/-- Whatever its outcome, the operation moves the state along `R`. -/
def Within (R : σ → σ → Prop) (x : EStateM ε σ α) : Prop := ∀ s, R s (endState x s)

section
variable {R : σ → σ → Prop}

theorem Within.ok {x : EStateM ε σ α} (hx : Within R x) {a : α} {s t : σ} (h : x s = .ok a t) :
    R s t := by
  have := hx s
  rwa [endState, h] at this

theorem Within.error {x : EStateM ε σ α} (hx : Within R x) {e : ε} {s t : σ}
    (h : x s = .error e t) : R s t := by
  have := hx s
  rwa [endState, h] at this

theorem within_intro {x : EStateM ε σ α} (hok : ∀ a s t, x s = .ok a t → R s t)
    (herr : ∀ e s t, x s = .error e t → R s t) : Within R x := by
  intro s
  unfold endState
  split
  · next a t h => exact hok a s t h
  · next e t h => exact herr e s t h

theorem Within.mono {S : σ → σ → Prop} {x : EStateM ε σ α} (hx : Within R x)
    (h : ∀ s t, R s t → S s t) : Within S x := fun s => h _ _ (hx s)

theorem within_modify {f : σ → σ} (h : ∀ s, R s (f s)) :
    Within R (modify f : EStateM ε σ Unit) := h

theorem within_bind [IsTrans σ R] {x : EStateM ε σ α} {f : α → EStateM ε σ β}
    (hx : Within R x) (hf : ∀ a, Within R (f a)) : Within R (x >>= f) := by
  intro s
  cases h : x s with
  | ok a t =>
    have := IsTrans.trans _ _ _ (hx.ok h) (hf a t)
    rwa [endState, bind_of_ok h]
  | error e t =>
    have := hx.error h
    rwa [endState, bind_of_error h]

variable [Std.Refl R]

theorem within_pure (a : α) : Within R (pure a : EStateM ε σ α) := fun s => Std.Refl.refl s

theorem within_throw (e : ε) : Within R (throw e : EStateM ε σ α) := fun s => Std.Refl.refl s

theorem within_get : Within R (get : EStateM ε σ σ) := fun s => Std.Refl.refl s

end

/-! ## Operations on the world -/

namespace Op

variable {κ : Type} {R : World κ → World κ → Prop}

theorem exec_ok {o : Op κ ε α} {a : α} {w w' : World κ} :
    o.exec w = (.ok a, w') ↔ o w = .ok a w' := by
  unfold exec
  split <;> simp_all

theorem exec_error {o : Op κ ε α} {e : ε} {w w' : World κ} :
    o.exec w = (.error e, w') ↔ o w = .error e w' := by
  unfold exec
  split <;> simp_all

theorem exec_world (o : Op κ ε α) (w : World κ) : (o.exec w).2 = endState o w := by
  unfold exec endState
  cases o w <;> rfl

theorem mapError_ok {f : ε → δ} {o : Op κ ε α} {a : α} {w w' : World κ} :
    mapError f o w = .ok a w' ↔ o w = .ok a w' := by
  unfold mapError
  split <;> simp_all

theorem mapError_error {f : ε → δ} {o : Op κ ε α} {d : δ} {w w' : World κ} :
    mapError f o w = .error d w' ↔ ∃ e, o w = .error e w' ∧ f e = d := by
  unfold mapError
  cases o w with
  | ok a u => simp
  | error e u =>
    simp only [EStateM.Result.error.injEq]
    exact ⟨fun h => ⟨e, ⟨rfl, h.2⟩, h.1⟩, fun ⟨_, ⟨he, hu⟩, hd⟩ => ⟨he ▸ hd, hu⟩⟩

theorem endState_mapError (f : ε → δ) (o : Op κ ε α) (w : World κ) :
    endState (mapError f o) w = endState o w := by
  unfold endState mapError
  cases o w <;> rfl

theorem within_mapError {f : ε → δ} {o : Op κ ε α} (h : Within R o) : Within R (mapError f o) :=
  within_intro (fun _ _ _ hm => h.ok (mapError_ok.mp hm)) fun _ _ _ hm => by
    obtain ⟨e, ho, -⟩ := mapError_error.mp hm
    exact h.error ho

theorem attempt_eq (o : Op κ ε α) (w : World κ) :
    (attempt o : Op κ δ (Except ε α)) w = .ok (o.exec w).1 (o.exec w).2 := rfl

theorem endState_attempt (o : Op κ ε α) (w : World κ) :
    endState (attempt o : Op κ δ (Except ε α)) w = endState o w := exec_world o w

theorem within_attempt {o : Op κ ε α} (h : Within R o) :
    Within R (attempt o : Op κ δ (Except ε α)) := by
  intro w
  simpa [endState, attempt_eq, exec_world] using h w

theorem ofExcept_ok {r : Except ε α} {a : α} {w w' : World κ} :
    ofExcept r w = .ok a w' ↔ r = .ok a ∧ w' = w := by
  cases r with
  | ok b =>
    change EStateM.Result.ok b w = _ ↔ _
    simp [eq_comm]
  | error e =>
    change EStateM.Result.error e w = _ ↔ _
    simp

theorem ofExcept_error {r : Except ε α} {e : ε} {w w' : World κ} :
    ofExcept r w = .error e w' ↔ r = .error e ∧ w' = w := by
  cases r with
  | ok b =>
    change EStateM.Result.ok b w = _ ↔ _
    simp
  | error e =>
    change EStateM.Result.error e w = _ ↔ _
    simp [eq_comm]

theorem within_ofExcept [Std.Refl R] (r : Except ε α) : Within R (ofExcept r : Op κ ε α) := by
  cases r with
  | ok a => exact within_pure a
  | error e => exact within_throw e

end Op

end Relay
