import Relay.Proofs.StoreCall
/-!
# Programs that only talk to the stores

A `Dialogue` is a program seen as the calls that it makes to the stores, each of which may depend on
the answers before. Two dialogues over one world can take turns at every call (`Interleaved`); the
calls are kept with the side that made them.

If of any two conflicting calls of different sides the left one comes first (`Precedes .left`), then
the right side can wait: every call of the left side that comes after one of the right side can be
made before it, so the left dialogue as a whole runs before the right one, with the same results, and
leaves a world that cannot be told from the one that the interleaving has left (`Interleaved.serial`).
-/
namespace Relay

variable {κ α β : Type}

/-- A program that makes calls to the stores and goes on with their answers. -/
inductive Dialogue (α : Type)
  | done (a : α)
  | fail (e : InboundError)
  /-- Makes a call; `refuse` is how it fails where the store refuses. -/
  | call (refuse : StoreError → InboundError) (c : StoreCall) (next : c.Answer → Dialogue α)

namespace Dialogue

def bind (f : α → Dialogue β) : Dialogue α → Dialogue β
  | .done a => f a
  | .fail e => .fail e
  | .call refuse c next => .call refuse c fun x => bind f (next x)

instance : Monad Dialogue where
  pure := .done
  bind d f := bind f d

/-- A single call. -/
def ask (refuse : StoreError → InboundError) (c : StoreCall) : Dialogue c.Answer :=
  .call refuse c .done

def run : Dialogue α → Op κ InboundError α
  | .done a => pure a
  | .fail e => throw e
  | .call refuse c next => do
    let x ← c.op.mapError refuse
    (next x).run

theorem run_bind (d : Dialogue α) (f : α → Dialogue β) :
    ((d >>= f).run : Op κ InboundError β) = d.run >>= fun a => (f a).run := by
  induction d with
  | done a => rfl
  | fail e => rfl
  | call refuse c next ih =>
    change (c.op.mapError refuse >>= fun x => (next x >>= f).run) =
      (c.op.mapError refuse >>= fun x => (next x).run) >>= _
    rw [bind_assoc]
    exact bind_congr ih

end Dialogue

/-- The dialogue makes the calls from the world and comes to the result. -/
inductive Runs : Dialogue α → World κ → List StoreCall → α → World κ → Prop
  | done {a : α} {w : World κ} : Runs (.done a) w [] a w
  | call {refuse : StoreError → InboundError} {c : StoreCall} {next : c.Answer → Dialogue α}
    {x : c.Answer} {cs : List StoreCall} {a : α} {w u w' : World κ}
    (hc : c.op w = .ok x u) (h : Runs (next x) u cs a w') :
    Runs (.call refuse c next) w (c :: cs) a w'

namespace Runs

variable {d : Dialogue α} {c : StoreCall} {cs : List StoreCall} {a : α} {w u v w' : World κ}

theorem run (h : Runs d w cs a w') : d.run w = .ok a w' := by
  induction h with
  | done => rfl
  | call hc _ ih => exact (bind_of_ok (Op.mapError_ok.mpr hc)).trans ih

theorem of_run (h : d.run w = .ok a w') : ∃ cs, Runs d w cs a w' := by
  induction d generalizing w with
  | done a => cases h; exact ⟨[], .done⟩
  | fail e => cases h
  | call refuse c next ih =>
    obtain ⟨x, u, hc, h1⟩ := bind_ok h
    obtain ⟨cs, hcs⟩ := ih x h1
    exact ⟨c :: cs, .call (Op.mapError_ok.mp hc) hcs⟩

/-- A dialogue takes the same course in worlds that cannot be told apart. -/
theorem same (h : Runs d w cs a w') (hs : World.Same w v) :
    ∃ v', Runs d v cs a v' ∧ World.Same w' v' := by
  induction h generalizing v with
  | done => exact ⟨v, .done, hs⟩
  | call hc _ ih =>
    obtain ⟨u', hu', hs'⟩ := StoreCall.op_same hc hs
    obtain ⟨v', hv', hs''⟩ := ih hs'
    exact ⟨v', .call hu' hv', hs''⟩

/-- **A call can wait for a whole dialogue** that it does not conflict with. -/
theorem past {x : c.Answer} (hc : c.op w = .ok x u) (h : Runs d u cs a w') (hw : w.Calm)
    (hn : ∀ c' ∈ cs, ¬ c.Conflicts c') :
    ∃ v v', Runs d w cs a v ∧ c.op v = .ok x v' ∧ World.Same w' v' := by
  induction d generalizing w u cs w' with
  | done b =>
    cases h
    exact ⟨w, _, .done, hc, .refl (StoreCall.op_calm hc hw)⟩
  | fail e => cases h
  | call refuse c' next ih =>
    cases h with
    | call hc' h =>
      have hnow := hn _ List.mem_cons_self
      obtain ⟨v, v', hv, hv', hs⟩ := StoreCall.swap hc hc' hw hnow
      -- the rest of the dialogue runs as well from where the call has waited
      obtain ⟨t, ht, hst⟩ := h.same hs
      have hcalm := StoreCall.op_calm hv hw
      obtain ⟨r, r', hr, hr', hsr⟩ :=
        ih _ hv' ht hcalm fun c'' hc'' => hn c'' (List.mem_cons_of_mem _ hc'')
      exact ⟨r, r', .call hv hr, hr', hst.trans hsr⟩

end Runs

/-- Whatever the answers are, the calls are of a kind, and so is the result. -/
inductive Dialogue.Only (P : StoreCall → Prop) (Q : α → Prop) : Dialogue α → Prop
  | done {a : α} (h : Q a) : Only P Q (.done a)
  | fail (e : InboundError) : Only P Q (.fail e)
  | call {refuse : StoreError → InboundError} {c : StoreCall} {next : c.Answer → Dialogue α}
    (hc : P c) (h : ∀ x, Only P Q (next x)) : Only P Q (.call refuse c next)

theorem Dialogue.Only.bind {P : StoreCall → Prop} {Q : α → Prop} {R : β → Prop} {d : Dialogue α}
    {f : α → Dialogue β} (h : Only P Q d) (hf : ∀ a, Q a → Only P R (f a)) :
    Only P R (d >>= f) := by
  induction h with
  | done ha => exact hf _ ha
  | fail e => exact .fail e
  | call hc _ ih => exact .call hc ih

/-! ## Two at a time -/

/-- Which of two dialogues a call belongs to. -/
inductive Side
  | left
  | right
  deriving DecidableEq

def Side.other : Side → Side
  | .left => .right
  | .right => .left

/-- Two dialogues go on by turns, in any order, from the world to their results. -/
inductive Interleaved :
    Dialogue α → Dialogue β → World κ → List (Side × StoreCall) → α → β → World κ → Prop
  | done {a : α} {b : β} {w : World κ} : Interleaved (.done a) (.done b) w [] a b w
  | left {refuse : StoreError → InboundError} {c : StoreCall} {next : c.Answer → Dialogue α}
    {r : Dialogue β} {x : c.Answer} {calls : List (Side × StoreCall)} {a : α} {b : β}
    {w u w' : World κ} (hc : c.op w = .ok x u) (h : Interleaved (next x) r u calls a b w') :
    Interleaved (.call refuse c next) r w ((.left, c) :: calls) a b w'
  | right {refuse : StoreError → InboundError} {c : StoreCall} {next : c.Answer → Dialogue β}
    {l : Dialogue α} {x : c.Answer} {calls : List (Side × StoreCall)} {a : α} {b : β}
    {w u w' : World κ} (hc : c.op w = .ok x u) (h : Interleaved l (next x) u calls a b w') :
    Interleaved l (.call refuse c next) w ((.right, c) :: calls) a b w'

/-- Lets the sides take turns as listed; nothing comes of it where a side whose turn it is has no call
to make or is refused, or is not done at the end. -/
def Dialogue.turns : List Side → Dialogue α → Dialogue β → World κ →
    Option (List (Side × StoreCall) × α × β × World κ)
  | [], .done a, .done b, w => some ([], a, b, w)
  | .left :: sides, .call _ c next, r, w =>
    match c.op w with
    | .ok x u => (turns sides (next x) r u).map fun t => ((.left, c) :: t.1, t.2)
    | .error _ _ => none
  | .right :: sides, l, .call _ c next, w =>
    match c.op w with
    | .ok x u => (turns sides l (next x) u).map fun t => ((.right, c) :: t.1, t.2)
    | .error _ _ => none
  | _, _, _, _ => none

theorem Interleaved.of_turns {sides : List Side} {l : Dialogue α} {r : Dialogue β} {w w' : World κ}
    {calls : List (Side × StoreCall)} {a : α} {b : β}
    (h : Dialogue.turns sides l r w = some (calls, a, b, w')) : Interleaved l r w calls a b w' := by
  fun_induction Dialogue.turns sides l r w generalizing calls with
  | case1 a b w => cases h; exact .done
  | case2 sides refuse c next r w x u hc ih =>
    obtain ⟨⟨cs, a', b', v⟩, ht, heq⟩ := Option.map_eq_some_iff.mp h
    cases heq
    exact .left hc (ih ht)
  | case4 sides l refuse c next w x u hc ih =>
    obtain ⟨⟨cs, a', b', v⟩, ht, heq⟩ := Option.map_eq_some_iff.mp h
    cases heq
    exact .right hc (ih ht)
  -- a call is refused, or the side has none to make
  | case3 | case5 | case6 => cases h

/-- Of two conflicting calls of different sides, the first is one of this side. -/
def Side.Precedes (side : Side) (calls : List (Side × StoreCall)) : Prop :=
  calls.Pairwise fun x y => x.1 ≠ y.1 → x.2.Conflicts y.2 → x.1 = side

instance (side : Side) (calls : List (Side × StoreCall)) : Decidable (side.Precedes calls) :=
  inferInstanceAs (Decidable (List.Pairwise _ _))

/-- The calls of a side. -/
def Side.of (side : Side) (calls : List (Side × StoreCall)) : List StoreCall :=
  (calls.filter fun x => x.1 = side).map Prod.snd

namespace Interleaved

variable {l : Dialogue α} {r : Dialogue β} {w w' : World κ} {calls : List (Side × StoreCall)} {a : α}
  {b : β}

/-- One after the other is one way to take turns. -/
theorem of_runs {ls rs : List StoreCall} {u : World κ} (hl : Runs l w ls a u) (hr : Runs r u rs b w') :
    Interleaved l r w (ls.map (Side.left, ·) ++ rs.map (Side.right, ·)) a b w' := by
  induction hl with
  | done =>
    induction hr with
    | done => exact .done
    | call hc _ ih => exact .right hc ih
  | call hc _ ih => exact .left hc (ih hr)

theorem symm (h : Interleaved l r w calls a b w') :
    Interleaved r l w (calls.map fun x => (x.1.other, x.2)) b a w' := by
  induction h with
  | done => exact .done
  | left hc _ ih => exact .right hc ih
  | right hc _ ih => exact .left hc ih

theorem only {P P' : StoreCall → Prop} {Q : α → Prop} {Q' : β → Prop}
    (h : Interleaved l r w calls a b w') (hl : l.Only P Q) (hr : r.Only P' Q') :
    ∀ x ∈ calls, (x.1 = .left → P x.2) ∧ (x.1 = .right → P' x.2) := by
  induction h with
  | done => exact fun _ hx => by cases hx
  | left _ _ ih =>
    cases hl with
    | call hc hl => exact List.forall_mem_cons.mpr ⟨⟨fun _ => hc, nofun⟩, ih (hl _) hr⟩
  | right _ _ ih =>
    cases hr with
    | call hc hr => exact List.forall_mem_cons.mpr ⟨⟨nofun, fun _ => hc⟩, ih hl (hr _)⟩

/-- What can be looked up at the end could be looked up all along. -/
theorem looked (h : Interleaved l r w calls a b w') {p : Place} {x : p.Content}
    (hx : w'.look p = .ok x) : ∃ y, w.look p = .ok y := by
  have hback : ∀ {c : StoreCall} {z : c.Answer} {w u : World κ}, c.op w = .ok z u →
      (∃ y, u.look p = .ok y) → ∃ y, w.look p = .ok y := by
    rintro c z w u hc ⟨y, hy⟩
    rw [StoreCall.op_look hc] at hy
    cases hl : w.look p with
    | ok y' => exact ⟨y', rfl⟩
    | error e => rw [hl] at hy; cases hy
  induction h with
  | done => exact ⟨x, hx⟩
  | left hc _ ih => exact hback hc (ih hx)
  | right hc _ ih => exact hback hc (ih hx)

/-- **If the left side precedes, the right side can wait for it to end.** -/
theorem serial (h : Interleaved l r w calls a b w') (hw : w.Calm) (ho : Side.left.Precedes calls) :
    ∃ u v, Runs l w (Side.left.of calls) a u ∧ Runs r u (Side.right.of calls) b v ∧
      World.Same w' v := by
  induction h with
  | done => exact ⟨_, _, .done, .done, .refl hw⟩
  | left hc _ ih =>
    obtain ⟨-, ho⟩ := List.pairwise_cons.mp ho
    obtain ⟨u, v, hl, hr, hs⟩ := ih (StoreCall.op_calm hc hw) ho
    exact ⟨u, v, .call hc hl, hr, hs⟩
  | @right refuse c next l x calls a b w t w' hc _ ih =>
    obtain ⟨hfirst, ho⟩ := List.pairwise_cons.mp ho
    obtain ⟨u, v, hl, hr, hs⟩ := ih (StoreCall.op_calm hc hw) ho
    -- the call conflicts with none of the left calls behind it
    have hn : ∀ c' ∈ Side.left.of calls, ¬ c.Conflicts c' := by
      intro c' hc' hconflict
      obtain ⟨⟨side, c''⟩, hx, rfl⟩ := List.mem_map.mp hc'
      obtain ⟨hx, hside⟩ := List.mem_filter.mp hx
      obtain rfl : side = .left := of_decide_eq_true hside
      cases hfirst _ hx nofun hconflict
    obtain ⟨u', t', hl', hc', hs'⟩ := hl.past hc hw hn
    obtain ⟨v', hr', hs''⟩ := hr.same hs'
    exact ⟨u', v', hl', .call hc' hr', hs.trans hs''⟩

end Interleaved

theorem Side.Precedes.symm {side : Side} {calls : List (Side × StoreCall)} (h : side.Precedes calls) :
    side.other.Precedes (calls.map fun x => (x.1.other, x.2)) := by
  refine List.pairwise_map.mpr (h.imp fun {x y} hxy hne hc => ?_)
  rw [hxy (fun h => hne (congrArg Side.other h)) hc]

end Relay
