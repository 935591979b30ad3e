import Relay.Proofs.Publication
/-!
# What a failure stops

`Publisher.Comes` says how a publish without behaviors comes to its end, with exactly the events of
all that was done in it. A failure of an exclusive method is the end of the publish, and nothing is
done after it: neither is the method called again, unless it is parallel, nor is a method behind it
invoked, nor a message published again. A failure of one of the others ends the publish with the
failure of one of them, and again nothing is published. Only where all methods have replied are the
messages among the replies published, and a failure of that further publish is one of the whole.

**Panics.** A panic on the pool is an error of the call. One in the task itself unwinds, and the
publish has no result (`Break.panic`); it stops the same things.

Results:
- `does_callOnce`, `does_invoke`, `does_dispatch`, `does_conclude`: what the parts of a publish have
  done that are over.
- `does_execute`: what a publish has done that is over.
- `failure_stops`: every publish is over in one of these ways, and as soon as its methods break off
  (`Beginning`).
-/
namespace Relay

open Relay.Flow (Break CutShort Does End Event InOrder Joined Schedule Stopped)

variable {σ : Type}

/-! ## Calls -/

section
variable [TaskState σ]

/-- The handler, given a call, has done exactly the events and come to the end. -/
inductive Handler.Did (mode : Mode) (self : Republish σ) (c : Call) :
    Handler σ → List (Event σ) → End Answer → Prop
  | async {run : Call → Republish σ → Work σ Answer} {h : List (Event σ)} {e : End Answer}
    (hd : Does (run c self) h e) : Did mode self c (.async run) h e
  | blocking {run : Nat → Call → Republish σ → σ → Returned × σ} (now : Nat) (s : σ) :
    Did mode self c (.blocking run) [.reading now, .change s (mode.call (run now c self) s).2]
      (mode.call (run now c self) s).1.end

/-- The handler runs on the pool. -/
def Handler.OnPool (mode : Mode) : Handler σ → Prop
  | .async _ => False
  | .blocking _ => mode = .async

/-- The handler of the method has answered the call: with a reply, or with none. -/
def Method.Replied (mode : Mode) (self : Republish σ) (m : Method σ) (c : Call) (h : List (Event σ))
    (rs : List Reply) : Prop :=
  ∃ reply : Option Reply, m.handler.Did mode self c h (.done (.ok reply)) ∧ rs = reply.toList

/-- The handler of the method has failed the call, and so the call broke off. -/
inductive Method.Failed (mode : Mode) (self : Republish σ) (m : Method σ) (c : Call) :
    List (Event σ) → Break PublishError → Prop
  | answered {h : List (Event σ)} {reason : String}
    (hd : m.handler.Did mode self c h (.done (.error reason))) :
    Failed mode self m c h (.error (.handler m.name reason))
  | onPool {h : List (Event σ)} {t : String} (hp : m.handler.OnPool mode)
    (hd : m.handler.Did mode self c h (.panicked t)) :
    Failed mode self m c h (.error (.handlerPanicked m.name))
  | inTask {h : List (Event σ)} {t : String} (hp : ¬ m.handler.OnPool mode)
    (hd : m.handler.Did mode self c h (.panicked t)) : Failed mode self m c h (.panic t)

variable {mode : Mode} {self : Republish σ} {m : Method σ} {c : Call} {h : List (Event σ)}

/-- A synchronous handler is called in one change of the state. -/
theorem did_of_act {α : Type} (mode : Mode) (run : Nat → Call → Republish σ → σ → Returned × σ)
    (now : Nat) {k : Returned → Work σ α} {e : End α}
    (hd : Does (.act (mode.call (run now c self)) k) h e) (he : e ≠ .unfinished) :
    ∃ r x h', h = x :: h' ∧ Handler.Did mode self c (.blocking run) [.reading now, x] r.end ∧
      Does (k r) h' e := by
  cases hd with
  | begins => exact absurd rfl he
  | act s hk => exact ⟨_, _, _, rfl, .blocking now s, hk⟩

/-- What the publish makes of what the handler has come to. -/
theorem callOnce_did {e : End (Except PublishError (List Reply))}
    (hd : Does (callOnce mode self m c) h e) (he : e ≠ .unfinished) :
    (∃ a, m.handler.Did mode self c h (.done a) ∧ e = .done (outcome m a)) ∨
    ∃ t, m.handler.Did mode self c h (.panicked t) ∧
      ((m.handler.OnPool mode ∧ e = .done (.error (.handlerPanicked m.name))) ∨
        (¬ m.handler.OnPool mode ∧ e = .panicked t)) := by
  unfold callOnce at hd
  split at hd
  · next run hm =>
    rw [hm]
    rcases Flow.does_bind hd he with ⟨h₁, h₂, a, rfl, hrun, hdone⟩ | ⟨t, rfl, hrun⟩
    · obtain ⟨rfl, rfl⟩ := Flow.does_done hdone he
      rw [List.append_nil]
      exact .inl ⟨a, .async hrun, rfl⟩
    · exact .inr ⟨t, .async hrun, .inr ⟨nofun, rfl⟩⟩
  · next run hm =>
    rw [hm]
    cases hd with
    | begins => exact absurd rfl he
    | clock now hd =>
      cases mode with
      | async =>
        obtain ⟨a | t, x, h', rfl, hdid, hk⟩ := did_of_act .async run now hd he
        · obtain ⟨rfl, rfl⟩ := Flow.does_done hk he
          exact .inl ⟨a, hdid, rfl⟩
        · obtain ⟨rfl, rfl⟩ := Flow.does_done hk he
          exact .inr ⟨t, hdid, .inl ⟨rfl, rfl⟩⟩
      | blocking =>
        obtain ⟨a | t, x, h', rfl, hdid, hk⟩ := did_of_act .blocking run now hd he
        · obtain ⟨rfl, rfl⟩ := Flow.does_done hk he
          exact .inl ⟨a, hdid, rfl⟩
        · cases hk with
          | begins => exact absurd rfl he
          | panicked => exact .inr ⟨t, hdid, .inr ⟨nofun, rfl⟩⟩

theorem does_callOnce {e : End (Except PublishError (List Reply))}
    (hd : Does (callOnce mode self m c) h e) (he : e ≠ .unfinished) :
    (∃ rs, e = .done (.ok rs) ∧ m.Replied mode self c h rs) ∨
    ∃ b : Break PublishError, e = b.end ∧ m.Failed mode self c h b := by
  rcases callOnce_did hd he with ⟨a, hdid, rfl⟩ | ⟨t, hdid, ⟨hp, rfl⟩ | ⟨hp, rfl⟩⟩
  · cases a with
    | ok reply => exact .inl ⟨reply.toList, by cases reply <;> rfl, reply, hdid, rfl⟩
    | error reason => exact .inr ⟨.error _, rfl, .answered hdid⟩
  · exact .inr ⟨.error _, rfl, .onPool hp hdid⟩
  · exact .inr ⟨.panic t, rfl, .inTask hp hdid⟩

end

/-! ## Methods -/

variable [TaskState σ] {p : Publisher σ} {mode : Mode} {self : Republish σ} {ms : List Message}
  {m : Method σ} {h : List (Event σ)}

namespace Publisher

/-- The method has been invoked for the messages: its handler has answered each of the calls, one
after the other unless the method is parallel, and its replies are joined in the order of the
calls. -/
def Serves (p : Publisher σ) (mode : Mode) (self : Republish σ) (ms : List Message) (m : Method σ)
    (h : List (Event σ)) (rs : List Reply) : Prop :=
  ∃ r ss cs, m.Called p ms r ss cs ∧
    Joined (m.Replied mode self) (if m.parallel then Merges else InOrder) cs h rs

/-- Invoking the method for the messages has failed, and so it broke off. -/
inductive BreaksOff (p : Publisher σ) (mode : Mode) (self : Republish σ) (ms : List Message)
    (m : Method σ) : List (Event σ) → Break PublishError → Prop
  | unresolved {x : ConfigurationError} (hx : m.Unresolved p ms x) :
    BreaksOff p mode self ms m [] (.error (.configuration x))
  /-- A call has failed, those before it have been answered, and there were none after it, -/
  | call {r : MessageResolver} {ss : List Message} {cs : List Call} {h : List (Event σ)}
    {b : Break PublishError} (hc : m.Called p ms r ss cs) (hone : m.parallel = true → cs.length ≤ 1)
    (hs : Stopped (m.Replied mode self) (m.Failed mode self) cs h b) : BreaksOff p mode self ms m h b
  /-- or one of several side by side has. -/
  | parallel {r : MessageResolver} {ss : List Message} {cs : List Call} {h : List (Event σ)}
    {b : Break PublishError} (hc : m.Called p ms r ss cs) (hp : m.parallel = true)
    (hs : CutShort (fun c => Does (callOnce mode self m c)) (m.Failed mode self) cs h b) :
    BreaksOff p mode self ms m h b

theorem does_invoke {e : End (Except PublishError (List Reply))}
    (hd : Does (invoke p.resolvers p.components mode self ms m) h e) (he : e ≠ .unfinished) :
    (∃ rs, e = .done (.ok rs) ∧ p.Serves mode self ms m h rs) ∨
    ∃ b : Break PublishError, e = b.end ∧ p.BreaksOff mode self ms m h b := by
  -- a call that has come to its replies, or that broke off
  have hreplied : ∀ c h rs, Flow.Makes (callOnce mode self m c) h rs → m.Replied mode self c h rs :=
    fun c h rs hd => Flow.result_of_cases (does_callOnce hd nofun)
  have hfailed : ∀ (b : Break PublishError) c h, Flow.Breaks (callOnce mode self m c) h b →
      m.Failed mode self c h b :=
    fun b c h hd => Flow.break_of_cases (does_callOnce hd b.finished)
  unfold invoke at hd
  split at hd
  · next x hx =>
    obtain ⟨rfl, rfl⟩ := Flow.does_done hd he
    exact .inr ⟨.error _, rfl, .unresolved (unresolved_of_calls hx)⟩
  · next cs hcs =>
    obtain ⟨r, ss, hcalled⟩ := called_of_calls hcs
    dsimp only at hd
    split at hd
    · next hparallel =>
      rw [Bool.and_eq_true] at hparallel
      rcases Flow.does_sideBySide hd he with ⟨rs, rfl, hj⟩ | ⟨b, rfl, hs⟩
      · refine .inl ⟨rs, rfl, r, ss, cs, hcalled, ?_⟩
        rw [if_pos hparallel.1]
        exact hj.of_map hreplied
      · refine .inr ⟨b, rfl, .parallel hcalled hparallel.1 ?_⟩
        exact hs.of_map (fun _ _ _ hd => hd) (hfailed b)
    · next hone =>
      rcases Flow.does_inTurn hd he with ⟨rs, rfl, hj⟩ | ⟨b, rfl, hs⟩
      · refine .inl ⟨rs, rfl, r, ss, cs, hcalled, (hj.of_map hreplied).reorder fun hs h horder => ?_⟩
        split
        · rw [horder]
          exact .flatten hs
        · exact horder
      · refine .inr ⟨b, rfl, .call hcalled (fun hp => ?_) (hs.of_map hreplied (hfailed b))⟩
        simpa [hp] using hone

/-! ## Publishes -/

/-- All methods have been invoked for the messages, the exclusive ones one after the other and then
the others side by side; the replies are those of the exclusive ones and then those of the others,
both in the order of the methods. -/
def ServesAll (p : Publisher σ) (mode : Mode) (self : Republish σ) (ms : List Message)
    (h : List (Event σ)) (rs : List Reply) : Prop :=
  ∃ h₁ h₂ first rest, h = h₁ ++ h₂ ∧ rs = first ++ rest ∧
    Joined (p.Serves mode self ms) InOrder (p.methods.filter fun m => m.exclusive) h₁ first ∧
    Joined (p.Serves mode self ms) Merges (p.methods.filter fun m => !m.exclusive) h₂ rest

/-- Invoking the method for the messages has come so far. -/
def Undertakes (p : Publisher σ) (mode : Mode) (self : Republish σ) (ms : List Message)
    (m : Method σ) (h : List (Event σ)) (e : End (Except PublishError (List Reply))) : Prop :=
  Does (invoke p.resolvers p.components mode self ms m) h e

/-- One of the methods has failed. Either an exclusive one has: those before it have been invoked,
those behind it have not, nor has any of the others. Or all exclusive ones have been invoked, and one
of the others has failed while each of them was under way. -/
inductive Interrupted (p : Publisher σ) (mode : Mode) (self : Republish σ) (ms : List Message) :
    List (Event σ) → Break PublishError → Prop
  | exclusive {h : List (Event σ)} {b : Break PublishError}
    (hs : Stopped (p.Serves mode self ms) (p.BreaksOff mode self ms)
      (p.methods.filter fun m => m.exclusive) h b) : Interrupted p mode self ms h b
  | concurrent {h₁ h₂ : List (Event σ)} {first : List Reply} {b : Break PublishError}
    (hj : Joined (p.Serves mode self ms) InOrder (p.methods.filter fun m => m.exclusive) h₁ first)
    (hs : CutShort (p.Undertakes mode self ms) (p.BreaksOff mode self ms)
      (p.methods.filter fun m => !m.exclusive) h₂ b) : Interrupted p mode self ms (h₁ ++ h₂) b

/-- How a publish with so many levels of nesting left comes to its end, with exactly the events of
all that was done in it. -/
inductive Comes (p : Publisher σ) (mode : Mode) (broker : Nat) :
    Nat → List Message → List (Event σ) → End Published → Prop
  | deep (ms : List Message) : Comes p mode broker 0 ms [] (.panicked "publishes nest too deep")
  | nothing (depth : Nat) : Comes p mode broker (depth + 1) [] [] (.done (.ok []))
  /-- A method has failed, and the publish with it. -/
  | interrupted {depth : Nat} {ms : List Message} {h : List (Event σ)} {b : Break PublishError}
    (hne : ms ≠ []) (hi : p.Interrupted mode (p.nested depth) ms h b) :
    Comes p mode broker (depth + 1) ms h b.end
  /-- All methods have been invoked and no messages are among the replies. -/
  | served {depth : Nat} {ms : List Message} {h : List (Event σ)} {rs : List Reply} {vs : List Value}
    (hne : ms ≠ []) (hs : p.ServesAll mode (p.nested depth) ms h rs) (hr : Reply.Splits rs vs []) :
    Comes p mode broker (depth + 1) ms h (.done (.ok vs))
  /-- The messages among the replies have been published; what that comes to is dropped, -/
  | republished {depth : Nat} {ms returned : List Message} {h h' : List (Event σ)} {rs : List Reply}
    {vs dropped : List Value} (hne : ms ≠ []) (hs : p.ServesAll mode (p.nested depth) ms h rs)
    (hr : Reply.Splits rs vs returned) (hsome : returned ≠ [])
    (hagain : Comes p mode broker depth returned h' (.done (.ok dropped))) :
    Comes p mode broker (depth + 1) ms (h ++ h') (.done (.ok vs))
  /-- unless it has failed, and the publish with it. -/
  | again {depth : Nat} {ms returned : List Message} {h h' : List (Event σ)} {rs : List Reply}
    {vs : List Value} {b : Break PublishError} (hne : ms ≠ [])
    (hs : p.ServesAll mode (p.nested depth) ms h rs) (hr : Reply.Splits rs vs returned)
    (hsome : returned ≠ []) (hagain : Comes p mode broker depth returned h' b.end) :
    Comes p mode broker (depth + 1) ms (h ++ h') b.end

/-- All methods are invoked and what follows is concluded, or one of them has failed. -/
theorem does_dispatch {again : List Message → Work σ Published} {e : End Published}
    (hd : Does (p.dispatch mode self again ms) h e) (he : e ≠ .unfinished) :
    (∃ h₀ h₁ rs, h = h₀ ++ h₁ ∧ p.ServesAll mode self ms h₀ rs ∧ Does (conclude again rs) h₁ e) ∨
    ∃ b : Break PublishError, e = b.end ∧ p.Interrupted mode self ms h b := by
  -- a method that has been invoked, or that broke off
  have hserves : ∀ m h rs, Flow.Makes (invoke p.resolvers p.components mode self ms m) h rs →
      p.Serves mode self ms m h rs :=
    fun m h rs hd => Flow.result_of_cases (does_invoke hd nofun)
  have hbreaks : ∀ (b : Break PublishError) m h,
      Flow.Breaks (invoke p.resolvers p.components mode self ms m) h b →
      p.BreaksOff mode self ms m h b :=
    fun b m h hd => Flow.break_of_cases (does_invoke hd b.finished)
  unfold dispatch at hd
  rcases Flow.does_andThen hd he with ⟨h₁, h₂, first, rfl, hfirst, hd⟩ | ⟨b, rfl, hfirst⟩
  · have hfirst := (Flow.result_of_cases (Flow.does_inTurn hfirst nofun)).of_map hserves
    rcases Flow.does_andThen hd he with ⟨h₃, h₄, rest, rfl, hrest, hd⟩ | ⟨b, rfl, hrest⟩
    · have hrest := (Flow.result_of_cases (Flow.does_sideBySide hrest nofun)).of_map hserves
      refine .inl ⟨h₁ ++ h₃, h₄, first ++ rest, (List.append_assoc ..).symm, ?_, hd⟩
      exact ⟨h₁, h₃, first, rest, rfl, rfl, hfirst, hrest⟩
    · have hrest := Flow.break_of_cases (Flow.does_sideBySide hrest b.finished)
      exact .inr ⟨b, rfl, .concurrent hfirst (hrest.of_map (fun _ _ _ hd => hd) (hbreaks b))⟩
  · have hfirst := Flow.break_of_cases (Flow.does_inTurn hfirst b.finished)
    exact .inr ⟨b, rfl, .exclusive (hfirst.of_map hserves (hbreaks b))⟩

omit [TaskState σ] in
/-- The values are the result, unless there is a further publish that breaks off. -/
theorem does_conclude {again : List Message → Work σ Published} {rs : List Reply} {e : End Published}
    (hd : Does (conclude again rs) h e) (he : e ≠ .unfinished) :
    (republished rs = [] ∧ h = [] ∧ e = .done (.ok (values rs))) ∨
    (republished rs ≠ [] ∧
      ((∃ dropped, Does (again (republished rs)) h (.done (.ok dropped)) ∧
        e = .done (.ok (values rs))) ∨
      ∃ b : Break PublishError, Does (again (republished rs)) h b.end ∧ e = b.end)) := by
  unfold conclude at hd
  split at hd
  · next hempty =>
    obtain ⟨rfl, rfl⟩ := Flow.does_done hd he
    exact .inl ⟨List.isEmpty_iff.mp hempty, rfl, rfl⟩
  · next hempty =>
    refine .inr ⟨fun hnone => hempty (List.isEmpty_iff.mpr hnone), ?_⟩
    rcases Flow.does_andThen hd he with ⟨h₁, h₂, dropped, rfl, hagain, hdone⟩ | ⟨b, rfl, hagain⟩
    · obtain ⟨rfl, rfl⟩ := Flow.does_done hdone he
      rw [List.append_nil]
      exact .inl ⟨dropped, hagain, rfl⟩
    · exact .inr ⟨b, hagain, rfl⟩

/-- **What a publish has done that is over.** The induction is on the levels of nesting that are
left: the messages among the replies are published one level down. -/
theorem does_execute (hb : p.behaviors = []) {broker depth : Nat} {e : End Published}
    (hd : Does (p.execute mode broker depth ms) h e) (he : e ≠ .unfinished) :
    p.Comes mode broker depth ms h e := by
  induction depth generalizing ms h e with
  | zero =>
    cases hd with
    | begins => exact absurd rfl he
    | panicked => exact .deep ms
  | succ depth ih =>
    by_cases hms : ms = []
    · subst hms
      obtain ⟨rfl, rfl⟩ := Flow.does_done hd he
      exact .nothing depth
    · rw [execute_bare hb mode broker depth hms] at hd
      rcases does_dispatch hd he with ⟨h₀, h₁, rs, rfl, hs, hd⟩ | ⟨b, rfl, hi⟩
      · rcases does_conclude hd he with ⟨hnone, rfl, rfl⟩ |
          ⟨hsome, ⟨dropped, hagain, rfl⟩ | ⟨b, hagain, rfl⟩⟩
        · rw [List.append_nil]
          exact .served hms hs (hnone ▸ splits rs)
        · exact .republished hms hs (splits rs) hsome (ih hagain nofun)
        · exact .again hms hs (splits rs) hsome (ih hagain b.finished)
      · exact .interrupted hms hi

/-- The methods, invoked for the messages one after the other in a publish with so many levels of
nesting left below it. -/
def invokingInTurn (p : Publisher σ) (mode : Mode) (left : Nat) (ms : List Message)
    (methods : List (Method σ)) : Work σ (Except PublishError (List Reply)) :=
  Flow.inTurn (methods.map (invoke p.resolvers p.components mode (p.nested left) ms))

/-- All methods of the publisher, invoked so. -/
def invokingAll (p : Publisher σ) (mode : Mode) (left : Nat) (ms : List Message) :
    Work σ (Except PublishError (List Reply)) :=
  (p.invokingInTurn mode left ms p.exclusive).andThen fun first =>
    (Flow.sideBySide p.concurrent.length (p.methods.length ≤ eagerLimit)
      (p.concurrent.map (invoke p.resolvers p.components mode (p.nested left) ms))).andThen
        fun rest => .done (.ok (first ++ rest))

/-- What a publish begins with: its exclusive methods up to one of them, or all its methods. -/
inductive Beginning (p : Publisher σ) (mode : Mode) (left : Nat) (ms : List Message) :
    Work σ (Except PublishError (List Reply)) → Prop
  | upTo (before : List (Method σ)) (m : Method σ) {rest : List (Method σ)}
    (hp : p.exclusive = before ++ m :: rest) :
    Beginning p mode left ms (p.invokingInTurn mode left ms (before ++ [m]))
  | all : Beginning p mode left ms (p.invokingAll mode left ms)

theorem Beginning.begins {left : Nat} {first : Work σ (Except PublishError (List Reply))}
    (hf : p.Beginning mode left ms first) (hb : p.behaviors = []) (broker : Nat) (hms : ms ≠ []) :
    ∃ k, p.execute mode broker (left + 1) ms = first.andThen k := by
  rw [execute_bare hb mode broker left hms]
  cases hf with
  | upTo before m hp =>
    rw [List.append_cons] at hp
    unfold dispatch
    dsimp only
    rw [hp, List.map_append, Flow.inTurn_append, Flow.andThen_assoc]
    exact ⟨_, rfl⟩
  | all =>
    refine ⟨conclude (p.execute mode broker left), ?_⟩
    unfold invokingAll
    simp only [Flow.andThen_assoc]
    rfl

/-- **A failure of a method stops the publish.** Polled for long enough, a publish is over, and it
has come to its end in one of the ways above. Once its exclusive methods up to one of them have
broken off, or all its methods have, so has the publish, in the same way, at the same poll and with
nothing else done. -/
theorem failure_stops (hb : p.behaviors = []) (mode : Mode) (broker depth : Nat)
    (ms : List Message) {plan : Schedule σ} (hplan : plan.Fair) :
    let flow := p.execute mode broker depth ms
    (∃ n e, (Flow.after plan flow n).end? = some e ∧
      p.Comes mode broker depth ms (Flow.history plan flow n) e) ∧
    ∀ left first, depth = left + 1 → ms ≠ [] → p.Beginning mode left ms first →
      ∀ n (b : Break PublishError), (Flow.after plan first n).end? = some b.end →
        (Flow.after plan flow n).end? = some b.end ∧
          Flow.history plan flow n = Flow.history plan first n := by
  intro flow
  constructor
  · obtain ⟨n, e, hend, hfinished, hdoes⟩ := Flow.ends_does hplan flow
    exact ⟨n, e, hend, does_execute hb hdoes hfinished⟩
  · rintro left first rfl hms hfirst n b hbroke
    obtain ⟨k, hflow⟩ : ∃ k, flow = first.andThen k := hfirst.begins hb broker hms
    rw [hflow]
    exact Flow.breaks_andThen hbroke

end Publisher

/-! ### A shop with a torn letter -/

namespace Publisher.Shop

/-- Every order is wrapped, but letters are torn. -/
def wraps : Method (Scope Unit) where
  name := "wraps"
  handler := .async fun c _ => .done <|
    if c.argument.messages.any fun x => x.typeName == "Letter" then .error "torn" else .ok none
  parameter := .message (.kind .command)

/-- Orders are billed, wrapped, billed once more and counted. -/
def tornShop : Publisher (Scope Unit) := ⟨[], [bills, wraps, bills, counts], .standard, [], 0, 2⟩

/-- The failure is that of the publish; nothing is billed again, counted or published again. -/
theorem failure_stops_torn : tornShop.behaviors = [] ∧ everySecond.Fair ∧ orders ≠ [] ∧
    (∃ n e, (Flow.after everySecond (tornShop.execute .async 0 2 orders) n).end? = some e ∧
      tornShop.Comes .async 0 2 orders
        (Flow.history everySecond (tornShop.execute .async 0 2 orders) n) e) ∧
    (Flow.after everySecond (tornShop.execute .async 0 2 orders) 1).end? =
      some (.done (.error (.handler "wraps" "torn"))) ∧
    Flow.history everySecond (tornShop.execute .async 0 2 orders) 1 =
      Flow.history everySecond (tornShop.invokingInTurn .async 1 orders [bills, wraps]) 1 := by
  have hne : orders ≠ [] := by simp [orders]
  have hfair : everySecond.Fair := fun t => ⟨t, fun m hm => by unfold everySecond; omega⟩
  obtain ⟨hends, hstops⟩ := failure_stops (p := tornShop) rfl .async 0 2 orders hfair
  have hbegins : tornShop.Beginning .async 1 orders
      (tornShop.invokingInTurn .async 1 orders [bills, wraps]) := .upTo [bills] wraps rfl
  have htorn := hstops 1 _ rfl hne hbegins 1 (.error (.handler "wraps" "torn")) rfl
  exact ⟨rfl, hfair, hne, hends, htorn⟩

end Publisher.Shop

end Relay
