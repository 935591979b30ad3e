/-!
# Flows

A flow is a computation that shares a state `σ` with others and may have to wait. `poll` runs
it at an instant until it waits, ends or panics; a flow that waits is what is left to run.
Several flows run side by side in a `gather`: at every poll those that are started take their
turn in order. Their results, lists of `β` or a failure `ε`, are taken in order whatever the
order they finish in.

A gather starts at most `limit` flows whose results have not been taken, and always one. An eager
gather fails with the first failure it sees, another one with the failure whose turn it is; either
way the flows that are still running are dropped.
-/
namespace Relay

inductive Flow (σ ε β : Type) : Type → Type 1
  | done {α : Type} (a : α) : Flow σ ε β α
  | panicked {α : Type} (text : String) : Flow σ ε β α
  /-- An atomic change of the state. -/
  | act {α γ : Type} (f : σ → γ × σ) (k : γ → Flow σ ε β α) : Flow σ ε β α
  /-- Reads the time. -/
  | clock {α : Type} (k : Nat → Flow σ ε β α) : Flow σ ε β α
  /-- Goes on at a time, in milliseconds. -/
  | wait {α : Type} (deadline : Nat) (k : Flow σ ε β α) : Flow σ ε β α
  /-- Runs flows side by side; `taken` holds the results taken so far. -/
  | gather {α : Type} (limit : Nat) (eager : Bool) (taken : List β)
      (flows : List (Flow σ ε β (Except ε (List β))))
      (k : Except ε (List β) → Flow σ ε β α) : Flow σ ε β α

namespace Flow

variable {σ ε β α γ : Type}

/-! ## Building -/

def bind (f : α → Flow σ ε β γ) : Flow σ ε β α → Flow σ ε β γ
  | .done a => f a
  | .panicked t => .panicked t
  | .act g k => .act g fun b => bind f (k b)
  | .clock k => .clock fun now => bind f (k now)
  | .wait t k => .wait t (bind f k)
  | .gather limit eager taken flows k => .gather limit eager taken flows fun r => bind f (k r)

def sleep (ms : Nat) (k : Flow σ ε β α) : Flow σ ε β α := .clock fun now => .wait (now + ms) k

/-- Changes the state with no result. -/
def modify (f : σ → σ) (k : Flow σ ε β α) : Flow σ ε β α := .act (fun s => ((), f s)) fun _ => k

/-- Goes on with a result, stops at a failure. -/
def andThen {δ : Type} (f : α → Flow σ ε β (Except δ γ)) (m : Flow σ ε β (Except δ α)) :
    Flow σ ε β (Except δ γ) :=
  m.bind fun r =>
    match r with
    | .ok a => f a
    | .error e => .done (.error e)

/-- Runs flows one after the other up to the first failure, their results joined. -/
def inTurn : List (Flow σ ε β (Except ε (List β))) → Flow σ ε β (Except ε (List β))
  | [] => .done (.ok [])
  | f :: fs => f.andThen fun bs => (inTurn fs).andThen fun cs => .done (.ok (bs ++ cs))

/-- Runs flows side by side, their results joined in order. -/
def sideBySide (limit : Nat) (eager : Bool) (flows : List (Flow σ ε β (Except ε (List β)))) :
    Flow σ ε β (Except ε (List β)) :=
  .gather limit eager [] flows .done

/-! ## Running -/

/-- What a turn of the flows of a gather leaves. -/
inductive Turn (σ ε β : Type) : Type 1
  | left (taken : List β) (flows : List (Flow σ ε β (Except ε (List β))))
  | failed (e : ε)
  | panicked (text : String)

/-- A flow that stays in its place before those of a turn. -/
def Turn.hold (f : Flow σ ε β (Except ε (List β))) : Turn σ ε β → Turn σ ε β
  | .left taken flows => .left taken (f :: flows)
  | r => r

mutual

/-- Runs a flow at an instant as far as it goes. -/
def poll (now : Nat) {α : Type} : Flow σ ε β α → σ → Flow σ ε β α × σ
  | .done a, s => (.done a, s)
  | .panicked t, s => (.panicked t, s)
  | .act f k, s =>
    match f s with
    | (b, s) => poll now (k b) s
  | .clock k, s => poll now (k now) s
  | .wait t k, s => if t ≤ now then poll now k s else (.wait t k, s)
  | .gather limit eager taken flows k, s =>
    match pollEach now limit eager 0 taken flows s with
    | (.failed e, s) => poll now (k (.error e)) s
    | (.panicked t, s) => (.panicked t, s)
    | (.left taken [], s) => poll now (k (.ok taken)) s
    | (.left taken flows, s) => (.gather limit eager taken flows k, s)
termination_by structural f => f

/-- Gives each started flow its turn; `held` of them before this point wait to be taken. -/
def pollEach (now limit : Nat) (eager : Bool) (held : Nat) (taken : List β) :
    List (Flow σ ε β (Except ε (List β))) → σ → Turn σ ε β × σ
  | [], s => (.left taken [], s)
  | f :: fs, s =>
    if held < max 1 limit then
      match poll now f s with
      | (.panicked t, s) => (.panicked t, s)
      | (.done (.error e), s) =>
        if eager || held = 0 then (.failed e, s)
        else
          match pollEach now limit eager (held + 1) taken fs s with
          | (r, s) => (r.hold (.done (.error e)), s)
      | (.done (.ok bs), s) =>
        if held = 0 then pollEach now limit eager 0 (taken ++ bs) fs s
        else
          match pollEach now limit eager (held + 1) taken fs s with
          | (r, s) => (r.hold (.done (.ok bs)), s)
      | (f, s) =>
        match pollEach now limit eager (held + 1) taken fs s with
        | (r, s) => (r.hold f, s)
    else (.left taken (f :: fs), s)
termination_by structural fs => fs

end

/-! ## Time -/

/-- The earlier of two times that may not be set. -/
def earlier : Option Nat → Option Nat → Option Nat
  | none, b => b
  | a, none => a
  | some a, some b => some (min a b)

mutual

/-- When a flow that has been polled can go on next. -/
def nextWake {α : Type} : Flow σ ε β α → Option Nat
  | .wait t _ => some t
  | .gather limit _ _ flows _ => nextOf (max 1 limit) flows
  | _ => none
termination_by structural f => f

def nextOf : Nat → List (Flow σ ε β (Except ε (List β))) → Option Nat
  | _, [] => none
  | 0, _ => none
  | n + 1, f :: fs => earlier (nextWake f) (nextOf n fs)
termination_by structural _ fs => fs

end

/-- How a flow ended. -/
inductive End (α : Type)
  | done (a : α)
  | panicked (text : String)
  | unfinished

/-- Runs a flow alone to its end, the time jumping to the next wake. -/
def complete : Nat → Nat → Flow σ ε β α → σ → End α × σ
  | 0, _, _, s => (.unfinished, s)
  | rounds + 1, now, f, s =>
    match poll now f s with
    | (.done a, s) => (.done a, s)
    | (.panicked t, s) => (.panicked t, s)
    | (f, s) =>
      match f.nextWake with
      | some t => complete rounds (max now t) f s
      | none => (.unfinished, s)

end Flow

end Relay
