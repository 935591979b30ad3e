import Mathlib.Order.Defs.Unbundled
import Relay.Flow
/-!
# What flows do to the state they share

A flow keeps a relation `R` if each of its atomic changes moves the state along `R`. A poll of
such a flow moves the state along `R` and leaves a flow that keeps `R`, whichever of the flows it
runs side by side end, fail or panic (`Keeps.poll`), and so does all that comes before a moment of
the poll (`Keeps.visits`). Flows built from flows that keep `R` keep it
(`Keeps.bind`, `Keeps.inTurn`, `Keeps.sideBySide`).
-/
namespace Relay

/-- Holds of any two states. -/
def Anything {σ : Type*} (_ _ : σ) : Prop := True

instance {σ : Type*} : Std.Refl (Anything (σ := σ)) := ⟨fun _ => trivial⟩

instance {σ : Type*} : IsTrans σ Anything := ⟨fun _ _ _ _ _ => trivial⟩

namespace Flow

variable {σ ε β : Type}

/-- Every change the flow makes to the state is along `R`. -/
inductive Keeps (R : σ → σ → Prop) : {α : Type} → Flow σ ε β α → Prop
  | done {α : Type} (a : α) : Keeps R (.done a)
  | panicked {α : Type} (t : String) : Keeps R (.panicked t : Flow σ ε β α)
  | act {α γ : Type} {f : σ → γ × σ} {k : γ → Flow σ ε β α} (hf : ∀ s, R s (f s).2)
    (hk : ∀ b, Keeps R (k b)) : Keeps R (.act f k)
  | clock {α : Type} {k : Nat → Flow σ ε β α} (hk : ∀ now, Keeps R (k now)) : Keeps R (.clock k)
  | wait {α : Type} {t : Nat} {k : Flow σ ε β α} (hk : Keeps R k) : Keeps R (.wait t k)
  | gather {α : Type} {limit : Nat} {eager : Bool} {taken : List β}
    {flows : List (Flow σ ε β (Except ε (List β)))} {k : Except ε (List β) → Flow σ ε β α}
    (hf : ∀ f, f ∈ flows → Keeps R f) (hk : ∀ r, Keeps R (k r)) :
    Keeps R (.gather limit eager taken flows k)

section
variable {R : σ → σ → Prop} {α γ : Type}

theorem Keeps.bind {m : Flow σ ε β α} (h : Keeps R m) {f : α → Flow σ ε β γ}
    (hf : ∀ a, Keeps R (f a)) : Keeps R (m.bind f) := by
  induction h with
  | done a => exact hf a
  | panicked t => exact .panicked t
  | act h hk ih => exact .act h fun b => ih b hf
  | clock hk ih => exact .clock fun now => ih now hf
  | wait hk ih => exact .wait (ih hf)
  | gather h hk ihf ih => exact .gather h fun r => ih r hf

theorem Keeps.andThen {δ : Type} {m : Flow σ ε β (Except δ α)} (h : Keeps R m)
    {f : α → Flow σ ε β (Except δ γ)} (hf : ∀ a, Keeps R (f a)) : Keeps R (m.andThen f) := by
  refine h.bind fun r => ?_
  cases r with
  | ok a => exact hf a
  | error e => exact .done _

theorem Keeps.inTurn {flows : List (Flow σ ε β (Except ε (List β)))}
    (h : ∀ f ∈ flows, Keeps R f) : Keeps R (inTurn flows) := by
  induction flows with
  | nil => exact .done _
  | cons f fs ih =>
    refine (h f List.mem_cons_self).andThen fun bs => ?_
    exact (ih fun g hg => h g (List.mem_cons_of_mem _ hg)).andThen fun cs => .done _

theorem Keeps.sideBySide {limit : Nat} {eager : Bool}
    {flows : List (Flow σ ε β (Except ε (List β)))} (h : ∀ f ∈ flows, Keeps R f) :
    Keeps R (sideBySide limit eager flows) :=
  .gather h fun r => .done r

end

/-! ### What every flow keeps -/

mutual

theorem keeps_anything : ∀ {α : Type} (f : Flow σ ε β α), Keeps Anything f
  | _, .done a => .done a
  | _, .panicked t => .panicked t
  | _, .act _ k => .act (fun _ => trivial) fun b => keeps_anything (k b)
  | _, .clock k => .clock fun now => keeps_anything (k now)
  | _, .wait _ k => .wait (keeps_anything k)
  | _, .gather _ _ _ flows k =>
    .gather (keep_anything flows) fun r => keeps_anything (k r)

theorem keep_anything : ∀ (flows : List (Flow σ ε β (Except ε (List β)))),
    ∀ f, f ∈ flows → Keeps Anything f
  | [], _, h => nomatch h
  | _ :: _, _, .head _ => keeps_anything _
  | _ :: flows, g, .tail _ h => keep_anything flows g h

end

/-! ### Flows one after the other -/

section
variable {α γ δ γ' : Type}

protected theorem bind_assoc (m : Flow σ ε β α) (f : α → Flow σ ε β γ) (g : γ → Flow σ ε β γ') :
    (m.bind f).bind g = m.bind fun a => (f a).bind g := by
  induction keeps_anything m with
  | done a => rfl
  | panicked t => rfl
  | act _ _ ih => simp only [bind, ih]
  | clock _ ih => simp only [bind, ih]
  | wait _ ih => simp only [bind, ih]
  | gather _ _ _ ih => simp only [bind, ih]

theorem bind_done (m : Flow σ ε β α) : m.bind .done = m := by
  induction keeps_anything m with
  | done a => rfl
  | panicked t => rfl
  | act _ _ ih => simp only [bind, ih]
  | clock _ ih => simp only [bind, ih]
  | wait _ ih => simp only [bind, ih]
  | gather _ _ _ ih => simp only [bind, ih]

theorem andThen_assoc (m : Flow σ ε β (Except δ α)) (f : α → Flow σ ε β (Except δ γ))
    (g : γ → Flow σ ε β (Except δ γ')) :
    (m.andThen f).andThen g = m.andThen fun a => (f a).andThen g := by
  unfold andThen
  rw [Flow.bind_assoc]
  congr 1
  funext r
  cases r <;> rfl

theorem andThen_ok (m : Flow σ ε β (Except δ α)) : (m.andThen fun a => .done (.ok a)) = m := by
  refine Eq.trans ?_ (bind_done m)
  unfold andThen
  congr 1
  funext r
  cases r <;> rfl

/-- Flows in turn are the first ones and then the others. -/
theorem inTurn_append (fs gs : List (Flow σ ε β (Except ε (List β)))) :
    inTurn (fs ++ gs) = (inTurn fs).andThen fun bs => (inTurn gs).andThen fun cs =>
      .done (.ok (bs ++ cs)) := by
  induction fs with
  | nil => exact (andThen_ok (inTurn gs)).symm
  | cons f fs ih =>
    simp only [List.cons_append, inTurn, ih, andThen_assoc]
    congr 1
    funext bs
    congr 1
    funext cs
    simp only [andThen, bind, List.append_assoc]

end

/-- The flows that a turn leaves keep `R`. -/
def Turn.Keep (R : σ → σ → Prop) : Turn σ ε β → Prop
  | .left _ flows => ∀ f, f ∈ flows → Keeps R f
  | .failed _ => True
  | .panicked _ => True

variable {R : σ → σ → Prop}

theorem Turn.Keep.hold {f : Flow σ ε β (Except ε (List β))} {r : Turn σ ε β} (hf : Keeps R f)
    (hr : r.Keep R) : (r.hold f).Keep R := by
  cases r with
  | left taken flows =>
    intro g hg
    rcases List.mem_cons.mp hg with rfl | hg
    · exact hf
    · exact hr g hg
  | failed e => trivial
  | panicked t => trivial

variable [Std.Refl R] [IsTrans σ R]

/-- A turn of flows that polls leave as they should. -/
theorem pollEach_keeps (now limit : Nat) (eager : Bool)
    {flows : List (Flow σ ε β (Except ε (List β)))}
    (h : ∀ f, f ∈ flows → Keeps R f ∧ ∀ s, R s (poll now f s).2 ∧ Keeps R (poll now f s).1)
    (held : Nat) (taken : List β) (s : σ) :
    R s (pollEach now limit eager held taken flows s).2 ∧
      (pollEach now limit eager held taken flows s).1.Keep R := by
  induction flows generalizing held taken s with
  | nil =>
    unfold pollEach
    refine ⟨Std.Refl.refl s, ?_⟩
    intro f hf
    cases hf
  | cons f fs ih =>
    have ih := ih fun g hg => h g (List.mem_cons_of_mem _ hg)
    obtain ⟨hf, hp⟩ := h f List.mem_cons_self
    unfold pollEach
    split
    · obtain ⟨hs, hk⟩ := hp s
      generalize poll now f s = r at hs hk ⊢
      -- the flows behind this one run on from where it leaves the state
      have hrest : ∀ held, R s (pollEach now limit eager held taken fs r.2).2 ∧
          ((pollEach now limit eager held taken fs r.2).1.hold r.1).Keep R := fun held =>
        ⟨IsTrans.trans _ _ _ hs (ih held taken r.2).1, (ih held taken r.2).2.hold hk⟩
      split
      · exact ⟨hs, trivial⟩
      · split
        · exact ⟨hs, trivial⟩
        · exact hrest _
      · next bs u =>
        split
        · exact ⟨IsTrans.trans _ _ _ hs (ih 0 (taken ++ bs) u).1, (ih 0 (taken ++ bs) u).2⟩
        · exact hrest _
      · exact hrest _
    · refine ⟨Std.Refl.refl s, ?_⟩
      intro g hg
      exact (h g hg).1

/-- **A poll keeps what its flow keeps.** -/
theorem Keeps.poll {α : Type} {f : Flow σ ε β α} (h : Keeps R f) (now : Nat) (s : σ) :
    R s (poll now f s).2 ∧ Keeps R (poll now f s).1 := by
  induction h generalizing s with
  | done a => exact ⟨Std.Refl.refl s, .done a⟩
  | panicked t => exact ⟨Std.Refl.refl s, .panicked t⟩
  | act hf hk ih =>
    unfold Flow.poll
    exact ⟨IsTrans.trans _ _ _ (hf s) (ih _ _).1, (ih _ _).2⟩
  | clock hk ih => exact ih now s
  | wait hk ih =>
    unfold Flow.poll
    split
    · exact ih s
    · exact ⟨Std.Refl.refl s, .wait hk⟩
  | @gather α limit eager taken flows k hf hk ihf ihk =>
    have hturn := pollEach_keeps now limit eager
      (fun f hm => ⟨hf f hm, ihf f hm⟩) 0 taken s
    unfold Flow.poll
    generalize pollEach now limit eager 0 taken flows s = r at hturn ⊢
    obtain ⟨hs, hk'⟩ := hturn
    split
    · exact ⟨IsTrans.trans _ _ _ hs (ihk _ _).1, (ihk _ _).2⟩
    · exact ⟨hs, .panicked _⟩
    · exact ⟨IsTrans.trans _ _ _ hs (ihk _ _).1, (ihk _ _).2⟩
    · exact ⟨hs, .gather hk' hk⟩

/-! ### Moments of a poll -/

/-- A poll of a flow may pass through the state: one of its changes finds or leaves it, in the flow
itself or in one of those that it runs side by side, whether or not these have their turn. -/
inductive Visits (now : Nat) : {α : Type} → Flow σ ε β α → σ → σ → Prop
  | here {α : Type} (f : Flow σ ε β α) (s : σ) : Visits now f s s
  | act {α γ : Type} {f : σ → γ × σ} {k : γ → Flow σ ε β α} {s u : σ}
    (h : Visits now (k (f s).1) (f s).2 u) : Visits now (.act f k) s u
  | clock {α : Type} {k : Nat → Flow σ ε β α} {s u : σ} (h : Visits now (k now) s u) :
    Visits now (.clock k) s u
  | wait {α : Type} {t : Nat} {k : Flow σ ε β α} {s u : σ} (h : Visits now k s u) :
    Visits now (.wait t k) s u
  /-- A flow that has its turn after others. -/
  | beside {α : Type} {limit : Nat} {eager : Bool} {taken : List β}
    {before after : List (Flow σ ε β (Except ε (List β)))} {f : Flow σ ε β (Except ε (List β))}
    {k : Except ε (List β) → Flow σ ε β α} {s u : σ}
    (h : Visits now f (before.foldl (fun s g => (poll now g s).2) s) u) :
    Visits now (.gather limit eager taken (before ++ f :: after) k) s u
  | gather {α : Type} {limit : Nat} {eager : Bool} {taken : List β}
    {flows : List (Flow σ ε β (Except ε (List β)))} {k : Except ε (List β) → Flow σ ε β α}
    {r : Except ε (List β)} {s u : σ}
    (h : Visits now (k r) (pollEach now limit eager 0 taken flows s).2 u) :
    Visits now (.gather limit eager taken flows k) s u

/-- Polls of flows one after the other. -/
theorem polls_keep (now : Nat) {flows : List (Flow σ ε β (Except ε (List β)))}
    (h : ∀ f ∈ flows, Keeps R f) (s : σ) : R s (flows.foldl (fun s f => (poll now f s).2) s) := by
  induction flows generalizing s with
  | nil => exact Std.Refl.refl s
  | cons f fs ih =>
    have hs := ((h f List.mem_cons_self).poll now s).1
    exact IsTrans.trans _ _ _ hs (ih (fun g hg => h g (List.mem_cons_of_mem _ hg)) _)

/-- **A flow keeps `R` up to every moment of a poll.** -/
theorem Keeps.visits {now : Nat} {α : Type} {f : Flow σ ε β α} {s u : σ} (hv : Visits now f s u)
    (h : Keeps R f) : R s u := by
  induction hv with
  | here f s => exact Std.Refl.refl s
  | act hv ih =>
    cases h with
    | act hf hk => exact IsTrans.trans _ _ _ (hf _) (ih (hk _))
  | clock hv ih =>
    cases h with
    | clock hk => exact ih (hk _)
  | wait hv ih =>
    cases h with
    | wait hk => exact ih hk
  | @beside α limit eager taken before after f k s u hv ih =>
    cases h with
    | gather hf hk =>
      have hbefore := polls_keep now (fun g hg => hf g (List.mem_append_left _ hg)) s
      exact IsTrans.trans _ _ _ hbefore
        (ih (hf f (List.mem_append_right _ List.mem_cons_self)))
  | @gather α limit eager taken flows k r s u hv ih =>
    cases h with
    | gather hf hk =>
      have hturn := pollEach_keeps now limit eager
        (fun f hm => ⟨hf f hm, fun s => (hf f hm).poll now s⟩) 0 taken s
      exact IsTrans.trans _ _ _ hturn.1 (ih (hk _))

end Flow

end Relay
