import Mathlib.Data.List.Forall2
import Relay.Proofs.Flow
/-!
# Runs of flows

`Runs f h e` says what a whole run of a flow may be, whoever else changes the state meanwhile: the
history `h` of its own events, each change with the state it found, and the end `e`. Flows that run
one after the other join their histories, flows that run side by side merge them (`Merges`).

A run of a flow that is built from others comes apart into runs of those (`runs_bind`,
`runs_andThen`). Of flows in turn or side by side either every one has run up to its result, and the
results are joined in the order of the flows, or one of them has failed or panicked with a part of
the history (`runs_inTurn`, `runs_sideBySide`).
-/
namespace Relay

/-! ## Merged lists -/

/-- The third list has the elements of the other two, each of them in order. -/
inductive Merge {α : Type*} : List α → List α → List α → Prop
  | nil : Merge [] [] []
  | left {as bs cs : List α} (a : α) (h : Merge as bs cs) : Merge (a :: as) bs (a :: cs)
  | right {as bs cs : List α} (b : α) (h : Merge as bs cs) : Merge as (b :: bs) (b :: cs)

/-- The list has the elements of all the lists, each of them in order. -/
inductive Merges {α : Type*} : List (List α) → List α → Prop
  | nil : Merges [] []
  | cons {as bs cs : List α} {ls : List (List α)} (h : Merge as bs cs) (hs : Merges ls bs) :
    Merges (as :: ls) cs

namespace Merge

variable {α : Type*} {as bs cs : List α}

theorem append_left (h : Merge as bs cs) (ds : List α) : Merge (ds ++ as) bs (ds ++ cs) := by
  induction ds with
  | nil => exact h
  | cons d ds ih => exact .left d ih

theorem append_right (h : Merge as bs cs) (ds : List α) : Merge as (ds ++ bs) (ds ++ cs) := by
  induction ds with
  | nil => exact h
  | cons d ds ih => exact .right d ih

theorem refl_right (bs : List α) : Merge [] bs bs := by
  have h : Merge [] (bs ++ []) (bs ++ []) := append_right .nil bs
  rwa [List.append_nil] at h

/-- One list before the other is one way to merge them. -/
protected theorem append (as bs : List α) : Merge as bs (as ++ bs) := by
  have h := (refl_right bs).append_left as
  rwa [List.append_nil] at h

/-- Both lists are parts of the merged one. -/
theorem sublist (h : Merge as bs cs) :
    as.Sublist cs ∧ bs.Sublist cs := by
  induction h with
  | nil => exact ⟨.slnil, .slnil⟩
  | left a _ ih => exact ⟨ih.1.cons_cons a, ih.2.cons a⟩
  | right b _ ih => exact ⟨ih.1.cons b, ih.2.cons_cons b⟩

end Merge

/-- One list after the other is one way to merge them. -/
theorem Merges.flatten {α : Type*} (ls : List (List α)) : Merges ls ls.flatten := by
  induction ls with
  | nil => exact .nil
  | cons as ls ih => exact .cons (.append as ls.flatten) ih

/-- Each of the lists is a part of the merged one. -/
theorem Merges.sublist {α : Type*} {ls : List (List α)} {cs : List α} (h : Merges ls cs) {as : List α}
    (hm : as ∈ ls) : as.Sublist cs := by
  induction h with
  | nil => cases hm
  | cons hmerge _ ih =>
    rcases List.mem_cons.mp hm with rfl | hm
    · exact hmerge.sublist.1
    · exact (ih hm).trans hmerge.sublist.2

/-- An element of the second list is related to one of the first. -/
theorem exists_of_forall₂ {α β : Type*} {R : α → β → Prop} {as : List α} {bs : List β}
    (h : List.Forall₂ R as bs) {b : β} (hb : b ∈ bs) : ∃ a ∈ as, R a b := by
  induction h with
  | nil => cases hb
  | cons hr _ ih =>
    rcases List.mem_cons.mp hb with rfl | hb
    · exact ⟨_, List.mem_cons_self, hr⟩
    · obtain ⟨a, ha, hr⟩ := ih hb
      exact ⟨a, List.mem_cons_of_mem _ ha, hr⟩

theorem forall₂_mono_of_mem {ι ι' : Type*} {R S : ι → ι' → Prop} {is : List ι} {js : List ι'}
    (h : List.Forall₂ R is js) (hRS : ∀ i ∈ is, ∀ j, R i j → S i j) : List.Forall₂ S is js := by
  induction h with
  | nil => exact .nil
  | cons hr _ ih =>
    exact .cons (hRS _ List.mem_cons_self _ hr)
      (ih fun i hi => hRS i (List.mem_cons_of_mem _ hi))

namespace Flow

variable {σ ε β α γ : Type}

/-! ## Runs -/

/-- What a flow does with what it shares with others. -/
inductive Event (σ : Type)
  /-- An atomic change of a state into another one. -/
  | change (s s' : σ)
  /-- A look at the clock. -/
  | reading (now : Nat)

/-- A whole run of a flow: its events, in order, and its end. A change may find the state in any
way, the clock may show any time, and what flows that run side by side have done when one of them
fails or panics is at least what that one did. -/
inductive Runs : {α : Type} → Flow σ ε β α → List (Event σ) → End α → Prop
  | done {α : Type} (a : α) : Runs (.done a) [] (.done a)
  | panicked {α : Type} (t : String) : Runs (.panicked t : Flow σ ε β α) [] (.panicked t)
  | act {α γ : Type} {f : σ → γ × σ} {k : γ → Flow σ ε β α} {h : List (Event σ)} {e : End α} (s : σ)
    (hk : Runs (k (f s).1) h e) : Runs (.act f k) (.change s (f s).2 :: h) e
  | clock {α : Type} {k : Nat → Flow σ ε β α} {h : List (Event σ)} {e : End α} (now : Nat)
    (hk : Runs (k now) h e) : Runs (.clock k) (.reading now :: h) e
  | wait {α : Type} {t : Nat} {k : Flow σ ε β α} {h : List (Event σ)} {e : End α}
    (hk : Runs k h e) : Runs (.wait t k) h e
  | gather {α : Type} {limit : Nat} {eager : Bool} {taken : List β}
    {flows : List (Flow σ ε β (Except ε (List β)))} {k : Except ε (List β) → Flow σ ε β α}
    {xs : List (List (Event σ) × List β)} {h h' : List (Event σ)} {e : End α}
    (hf : List.Forall₂ (fun f x => Runs f x.1 (.done (.ok x.2))) flows xs)
    (hm : Merges (xs.map Prod.fst) h) (hk : Runs (k (.ok (taken ++ xs.flatMap Prod.snd))) h' e) :
    Runs (.gather limit eager taken flows k) (h ++ h') e
  | failed {α : Type} {limit : Nat} {eager : Bool} {taken : List β}
    {flows : List (Flow σ ε β (Except ε (List β)))} {k : Except ε (List β) → Flow σ ε β α}
    {f : Flow σ ε β (Except ε (List β))} {x : ε} {hf h h' : List (Event σ)} {e : End α}
    (hmem : f ∈ flows) (hx : Runs f hf (.done (.error x))) (hs : hf.Sublist h)
    (hk : Runs (k (.error x)) h' e) : Runs (.gather limit eager taken flows k) (h ++ h') e
  | broken {α : Type} {limit : Nat} {eager : Bool} {taken : List β}
    {flows : List (Flow σ ε β (Except ε (List β)))} {k : Except ε (List β) → Flow σ ε β α}
    {f : Flow σ ε β (Except ε (List β))} {t : String} {hf h : List (Event σ)}
    (hmem : f ∈ flows) (hx : Runs f hf (.panicked t)) (hs : hf.Sublist h) :
    Runs (.gather limit eager taken flows k) h (.panicked t)

/-- The end is no result. -/
def End.Fails {δ : Type} (e : End (Except ε δ)) : Prop := ∀ a, e ≠ .done (.ok a)

theorem End.Fails.error {δ : Type} (x : ε) : End.Fails (.done (.error x) : End (Except ε δ)) :=
  nofun

theorem End.Fails.panicked {δ : Type} (t : String) :
    End.Fails (.panicked t : End (Except ε δ)) :=
  nofun

/-- What the flows of a gather do by themselves: all of them, up to their results, or at least one
that fails or panics. -/
inductive Gathers (taken : List β) (flows : List (Flow σ ε β (Except ε (List β)))) :
    List (Event σ) → End (Except ε (List β)) → Prop
  | all {xs : List (List (Event σ) × List β)} {h : List (Event σ)}
    (hf : List.Forall₂ (fun f x => Runs f x.1 (.done (.ok x.2))) flows xs)
    (hm : Merges (xs.map Prod.fst) h) :
    Gathers taken flows h (.done (.ok (taken ++ xs.flatMap Prod.snd)))
  | one {f : Flow σ ε β (Except ε (List β))} {hf h : List (Event σ)} {e : End (Except ε (List β))}
    (hmem : f ∈ flows) (he : e.Fails) (hx : Runs f hf e) (hs : hf.Sublist h) :
    Gathers taken flows h e

section
variable {limit : Nat} {eager : Bool} {taken : List β}
  {flows : List (Flow σ ε β (Except ε (List β)))} {k : Except ε (List β) → Flow σ ε β α}
  {h h' : List (Event σ)} {e : End α}

theorem Gathers.runs {r : Except ε (List β)} (hg : Gathers taken flows h (.done r))
    (hk : Runs (k r) h' e) : Runs (.gather limit eager taken flows k) (h ++ h') e := by
  cases hg with
  | all hf hm => exact .gather hf hm hk
  | one hmem he hx hs =>
    cases r with
    | ok bs => exact absurd rfl (he bs)
    | error x => exact .failed hmem hx hs hk

theorem Gathers.broken {t : String} (hg : Gathers taken flows h (.panicked t)) :
    Runs (.gather limit eager taken flows k) h (.panicked t) := by
  cases hg with
  | one hmem he hx hs => exact .broken hmem hx hs

/-- A run of a gather is one of its flows and then of what follows them, unless a flow panics. -/
theorem runs_gather (hr : Runs (.gather limit eager taken flows k) h e) :
    (∃ h₁ h₂ r, h = h₁ ++ h₂ ∧ Gathers taken flows h₁ (.done r) ∧ Runs (k r) h₂ e) ∨
    ∃ t, e = .panicked t ∧ Gathers taken flows h (.panicked t) := by
  cases hr with
  | gather hf hm hk => exact .inl ⟨_, _, .ok _, rfl, .all hf hm, hk⟩
  | failed hmem hx hs hk =>
    exact .inl ⟨_, _, .error _, rfl, .one hmem (.error _) hx hs, hk⟩
  | broken hmem hx hs => exact .inr ⟨_, rfl, .one hmem (.panicked _) hx hs⟩

end

/-! ## Runs of built flows -/

/-- A run of a flow and what follows it, unless the flow panics. -/
theorem runs_bind {m : Flow σ ε β α} {f : α → Flow σ ε β γ} {h : List (Event σ)} {e : End γ}
    (hr : Runs (m.bind f) h e) :
    (∃ h₁ h₂ a, h = h₁ ++ h₂ ∧ Runs m h₁ (.done a) ∧ Runs (f a) h₂ e) ∨
    ∃ t, e = .panicked t ∧ Runs m h (.panicked t) := by
  induction keeps_anything m generalizing h with
  | done a => exact .inl ⟨[], h, a, rfl, .done a, hr⟩
  | panicked t =>
    cases hr
    exact .inr ⟨t, rfl, .panicked t⟩
  | act _ _ ih =>
    cases hr with
    | act s hk =>
      rcases ih _ hk with ⟨h₁, h₂, a, rfl, hm, hf⟩ | ⟨t, rfl, hm⟩
      · exact .inl ⟨_ :: h₁, h₂, a, rfl, .act s hm, hf⟩
      · exact .inr ⟨t, rfl, .act s hm⟩
  | clock _ ih =>
    cases hr with
    | clock now hk =>
      rcases ih now hk with ⟨h₁, h₂, a, rfl, hm, hf⟩ | ⟨t, rfl, hm⟩
      · exact .inl ⟨_ :: h₁, h₂, a, rfl, .clock now hm, hf⟩
      · exact .inr ⟨t, rfl, .clock now hm⟩
  | wait _ ih =>
    cases hr with
    | wait hk =>
      rcases ih hk with ⟨h₁, h₂, a, rfl, hm, hf⟩ | ⟨t, rfl, hm⟩
      · exact .inl ⟨h₁, h₂, a, rfl, .wait hm, hf⟩
      · exact .inr ⟨t, rfl, .wait hm⟩
  | gather _ _ _ ih =>
    rcases runs_gather hr with ⟨h₁, h₂, r, rfl, hg, hk⟩ | ⟨t, rfl, hg⟩
    · rcases ih r hk with ⟨h₃, h₄, a, rfl, hm, hf⟩ | ⟨t, rfl, hm⟩
      · exact .inl ⟨h₁ ++ h₃, h₄, a, (List.append_assoc ..).symm, hg.runs hm, hf⟩
      · exact .inr ⟨t, rfl, hg.runs hm⟩
    · exact .inr ⟨t, rfl, hg.broken⟩

/-- A run of a flow up to its result and of what follows that, unless the flow fails or panics. -/
theorem runs_andThen {δ δ' : Type} {m : Flow σ ε β (Except δ α)}
    {f : α → Flow σ ε β (Except δ δ')} {h : List (Event σ)} {e : End (Except δ δ')}
    (hr : Runs (m.andThen f) h e) :
    (∃ h₁ h₂ a, h = h₁ ++ h₂ ∧ Runs m h₁ (.done (.ok a)) ∧ Runs (f a) h₂ e) ∨
    (e.Fails ∧ ∃ e', e'.Fails ∧ Runs m h e') := by
  rcases runs_bind hr with ⟨h₁, h₂, r, rfl, hm, hf⟩ | ⟨t, rfl, hm⟩
  · cases r with
    | ok a => exact .inl ⟨h₁, h₂, a, rfl, hm, hf⟩
    | error x =>
      cases hf
      rw [List.append_nil]
      exact .inr ⟨.error x, .done (.error x), .error x, hm⟩
  · exact .inr ⟨.panicked t, .panicked t, .panicked t, hm⟩

/-! ### Flows in turn and side by side -/

/-- Everything in the list has been done, with a history and results: `order` says how the histories
make up the whole one, and the results are joined in the order of the list. -/
def Joined {ι : Type*} (Did : ι → List (Event σ) → List β → Prop)
    (order : List (List (Event σ)) → List (Event σ) → Prop) (is : List ι) (h : List (Event σ))
    (bs : List β) : Prop :=
  ∃ xs : List (List (Event σ) × List β),
    List.Forall₂ (fun i x => Did i x.1 x.2) is xs ∧ order (xs.map Prod.fst) h ∧
      bs = xs.flatMap Prod.snd

/-- One history after the other. -/
def InOrder (hs : List (List (Event σ))) (h : List (Event σ)) : Prop := h = hs.flatten

/-- The flow has run up to the results. -/
def Yields (f : Flow σ ε β (Except ε (List β))) (h : List (Event σ)) (bs : List β) : Prop :=
  Runs f h (.done (.ok bs))

section
variable {ι κ : Type*} {Did : ι → List (Event σ) → List β → Prop}
  {Does : κ → List (Event σ) → List β → Prop}
  {order order' : List (List (Event σ)) → List (Event σ) → Prop} {h : List (Event σ)} {bs : List β}

theorem Joined.of_map {is : List ι} {g : ι → κ} (hj : Joined Does order (is.map g) h bs)
    (hdid : ∀ i h bs, Does (g i) h bs → Did i h bs) : Joined Did order is h bs := by
  obtain ⟨xs, hxs, horder, hbs⟩ := hj
  exact ⟨xs, (List.forall₂_map_left_iff.mp hxs).imp fun i x hd => hdid i x.1 x.2 hd, horder, hbs⟩

/-- A result is one of something in the list. -/
theorem Joined.exists_of_mem {is : List ι} (hj : Joined Did order is h bs) {b : β} (hb : b ∈ bs) :
    ∃ i ∈ is, ∃ h' bs', Did i h' bs' ∧ b ∈ bs' := by
  obtain ⟨xs, hxs, -, rfl⟩ := hj
  obtain ⟨x, hx, hb⟩ := List.mem_flatMap.mp hb
  obtain ⟨i, hi, hdid⟩ := exists_of_forall₂ hxs hx
  exact ⟨i, hi, x.1, x.2, hdid, hb⟩

/-- Where each in the list can only have given the results `f` says, so have all of them. -/
theorem Joined.eq_flatMap {is : List ι} {f : ι → List β} (hj : Joined Did order is h bs)
    (hf : ∀ i ∈ is, ∀ h' bs', Did i h' bs' → bs' = f i) : bs = is.flatMap f := by
  obtain ⟨xs, hxs, -, rfl⟩ := hj
  induction hxs with
  | nil => rfl
  | cons hdid _ ih =>
    obtain ⟨hfirst, hrest⟩ := List.forall_mem_cons.mp hf
    rw [List.flatMap_cons, List.flatMap_cons, hfirst _ _ hdid, ih hrest]

theorem Joined.reorder {is : List ι} (hj : Joined Did order is h bs)
    (horder : ∀ hs h, order hs h → order' hs h) : Joined Did order' is h bs := by
  obtain ⟨xs, hxs, hall, hbs⟩ := hj
  exact ⟨xs, hxs, horder _ _ hall, hbs⟩

end

/-- One of the flows has failed or panicked, with a part of the history. -/
def Spoilt (flows : List (Flow σ ε β (Except ε (List β)))) (h : List (Event σ)) : Prop :=
  ∃ f ∈ flows, ∃ h' e, h'.Sublist h ∧ e.Fails ∧ Runs f h' e

/-- The flows have all run up to their results, which make up the end, or one of them has failed or
panicked. -/
def Ran (order : List (List (Event σ)) → List (Event σ) → Prop)
    (flows : List (Flow σ ε β (Except ε (List β)))) (h : List (Event σ))
    (e : End (Except ε (List β))) : Prop :=
  (∃ bs, e = .done (.ok bs) ∧ Joined Yields order flows h bs) ∨ (e.Fails ∧ Spoilt flows h)

section
variable {order : List (List (Event σ)) → List (Event σ) → Prop}
  {flows : List (Flow σ ε β (Except ε (List β)))} {h : List (Event σ)}
  {e : End (Except ε (List β))}

theorem Spoilt.mono {h' : List (Event σ)} (hs : Spoilt flows h) (hsub : h.Sublist h') :
    Spoilt flows h' := by
  obtain ⟨f, hf, h'', e, hpart, he⟩ := hs
  exact ⟨f, hf, h'', e, hpart.trans hsub, he⟩

theorem Ran.andThen {δ : Type} {m : Flow σ ε β (Except ε (List β))}
    {f : List β → Flow σ ε β (Except ε δ)} {e : End (Except ε δ)}
    (hm : ∀ h e, Runs m h e → Ran order flows h e) (hr : Runs (m.andThen f) h e) :
    (∃ h₁ h₂ bs, h = h₁ ++ h₂ ∧ Joined Yields order flows h₁ bs ∧ Runs (f bs) h₂ e) ∨
    (e.Fails ∧ Spoilt flows h) := by
  rcases runs_andThen hr with ⟨h₁, h₂, bs, rfl, hruns, hf⟩ | ⟨he, e', he', hruns⟩
  · rcases hm _ _ hruns with ⟨_, heq, hj⟩ | ⟨hfails, -⟩
    · cases heq
      exact .inl ⟨h₁, h₂, bs, rfl, hj, hf⟩
    · exact absurd rfl (hfails bs)
  · rcases hm _ _ hruns with ⟨bs, rfl, -⟩ | ⟨-, hs⟩
    · exact absurd rfl (he' bs)
    · exact .inr ⟨he, hs⟩

theorem runs_inTurn (hr : Runs (inTurn flows) h e) : Ran InOrder flows h e := by
  induction flows generalizing h e with
  | nil =>
    cases hr
    exact .inl ⟨[], rfl, [], .nil, rfl, rfl⟩
  | cons f fs ih =>
    rcases runs_andThen hr with ⟨h₁, h₂, bs, rfl, hf, hr⟩ | ⟨he, e', he', hf⟩
    · rcases Ran.andThen (fun _ _ => ih) hr with
        ⟨h₃, h₄, cs, rfl, hj, hdone⟩ | ⟨he, g, hg, h', e', hs, hg'⟩
      · cases hdone
        obtain ⟨xs, hxs, rfl, rfl⟩ := hj
        rw [List.append_nil]
        exact .inl ⟨_, rfl, (h₁, bs) :: xs, .cons hf hxs, rfl, rfl⟩
      · have hlater := hs.trans (List.sublist_append_right h₁ h₂)
        exact .inr ⟨he, g, List.mem_cons_of_mem _ hg, h', e', hlater, hg'⟩
    · exact .inr ⟨he, f, List.mem_cons_self, h, e', .refl h, he', hf⟩

theorem runs_sideBySide {limit : Nat} {eager : Bool}
    (hr : Runs (sideBySide limit eager flows) h e) : Ran Merges flows h e := by
  have hg : Gathers [] flows h e := by
    rcases runs_gather hr with ⟨h₁, h₂, r, rfl, hg, hk⟩ | ⟨t, rfl, hg⟩
    · cases hk
      rwa [List.append_nil]
    · exact hg
  cases hg with
  | all hf hm => exact .inl ⟨_, rfl, _, hf, hm, rfl⟩
  | one hmem he hx hs => exact .inr ⟨he, _, hmem, _, _, hs, he, hx⟩

end

end Flow

end Relay
