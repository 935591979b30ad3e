import Relay.Proofs.Routing
import Relay.Proofs.Schedule
import Relay.Proofs.Selection
/-!
# What a publish does and returns

`Publisher.Accounts` says it of a publish without behaviors, by the history of its events: the
exclusive methods are invoked one after the other, then the others side by side; each is called for
the messages it selects (`Method.Called`); the values of the result are those that the handlers
answered, in the order of the methods and of their calls; and the messages that they answered are
published again, all in one further publish (`Reply.Splits`).

* `runs_callOnce`, `runs_invoke`, `runs_dispatch`, `runs_conclude`: the runs of the parts of a
  publish come apart into runs of handlers, up to a failure.
* `execute_accounts`: polled for long enough, a publish is over. If nothing in it is faulty it has a
  result, and where it has one, it accounts for what was done.
* `not_faulty`: nothing is faulty where handlers always answer, with messages of ever lower rank.
-/
namespace Relay

open Relay.Flow (End Event InOrder Joined Ran Runs Schedule Spoilt Yields)

variable {σ : Type}

/-! ## Handlers -/

/-- How a synchronous handler that came back has ended. -/
def Returned.end : Returned → End Answer
  | .answered a => .done a
  | .panicked t => .panicked t

section
variable [TaskState σ]

/-- Where a synchronous handler runs: on a thread of its own, or in the task. -/
def Mode.call {α : Type} : Mode → (σ → α × σ) → σ → α × σ
  | .async, f => onThread f
  | .blocking, f => f

/-- The handler, given a call, does the events and ends so. -/
inductive Handler.Ends (mode : Mode) (self : Republish σ) (c : Call) :
    Handler σ → List (Event σ) → End Answer → Prop
  | async {run : Call → Republish σ → Work σ Answer} {h : List (Event σ)} {e : End Answer}
    (hr : Runs (run c self) h e) : Ends mode self c (.async run) h e
  | blocking {run : Nat → Call → Republish σ → σ → Returned × σ} (now : Nat) (s : σ) :
    Ends mode self c (.blocking run) [.reading now, .change s (mode.call (run now c self) s).2]
      (mode.call (run now c self) s).1.end

/-- The handler of the method has answered the call: with a reply, or with none. -/
def Method.Answers (mode : Mode) (self : Republish σ) (m : Method σ) (c : Call) (h : List (Event σ))
    (rs : List Reply) : Prop :=
  ∃ reply : Option Reply, m.handler.Ends mode self c h (.done (.ok reply)) ∧ rs = reply.toList

variable {mode : Mode} {self : Republish σ} {m : Method σ} {c : Call} {h : List (Event σ)}

/-- What a synchronous handler has come back with: an answer comes to its outcome, a panic to no
result. -/
theorem runs_returned {run : Nat → Call → Republish σ → σ → Returned × σ} {now : Nat}
    {k : Returned → Work σ (Except PublishError (List Reply))}
    {e : End (Except PublishError (List Reply))}
    (ha : ∀ a, k (.answered a) = .done (outcome m a))
    (hp : ∀ t h e, Runs (k (.panicked t)) h e → h = [] ∧ e.Fails)
    (hr : Runs (.act (mode.call (run now c self)) k) h e) :
    ∃ e', Handler.Ends mode self c (.blocking run) (.reading now :: h) e' ∧
      ((∃ a, e' = .done a ∧ e = .done (outcome m a)) ∨ (e.Fails ∧ e'.Fails)) := by
  cases hr with
  | @act _ _ _ _ h _ s hk =>
    have hends : Handler.Ends mode self c (.blocking run) _ _ := .blocking now s
    generalize mode.call (run now c self) s = r at hk hends ⊢
    rcases r with ⟨a | t, u⟩
    · dsimp only at hk
      rw [ha] at hk
      cases hk
      exact ⟨_, hends, .inl ⟨a, rfl, rfl⟩⟩
    · obtain ⟨rfl, he⟩ := hp t _ _ hk
      exact ⟨_, hends, .inr ⟨he, .panicked t⟩⟩

/-- A call comes to what its handler has answered, or the handler has failed or panicked. -/
theorem runs_callOnce {e : End (Except PublishError (List Reply))}
    (hr : Runs (callOnce mode self m c) h e) :
    (∃ rs, e = .done (.ok rs) ∧ m.Answers mode self c h rs) ∨
    (e.Fails ∧ ∃ e', e'.Fails ∧ m.handler.Ends mode self c h e') := by
  obtain ⟨e', hends, houtcome⟩ : ∃ e', m.handler.Ends mode self c h e' ∧
      ((∃ a, e' = .done a ∧ e = .done (outcome m a)) ∨ (e.Fails ∧ e'.Fails)) := by
    unfold callOnce at hr
    split at hr
    · next run hm =>
      rw [hm]
      rcases Flow.runs_bind hr with ⟨h₁, h₂, a, rfl, hrun, hdone⟩ | ⟨t, rfl, hrun⟩
      · cases hdone
        rw [List.append_nil]
        exact ⟨_, .async hrun, .inl ⟨a, rfl, rfl⟩⟩
      · exact ⟨_, .async hrun, .inr ⟨.panicked t, .panicked t⟩⟩
    · next run hm =>
      rw [hm]
      cases hr with
      | clock now hr =>
        cases mode with
        | async =>
          refine runs_returned (fun a => rfl) (fun t h e hr => ?_) hr
          cases hr
          exact ⟨rfl, .error _⟩
        | blocking =>
          refine runs_returned (fun a => rfl) (fun t h e hr => ?_) hr
          cases hr
          exact ⟨rfl, .panicked t⟩
  rcases houtcome with ⟨a, rfl, rfl⟩ | ⟨he, he'⟩
  · cases a with
    | ok reply => exact .inl ⟨reply.toList, by cases reply <;> rfl, reply, hends, rfl⟩
    | error reason => exact .inr ⟨.error _, _, .error reason, hends⟩
  · exact .inr ⟨he, e', he', hends⟩

end

/-! ## Methods -/

/-- The resolver of a message parameter: of those that can resolve it, the one that was added last. -/
def Resolvers.Chooses (r : Resolvers) (p : Parameter) (x : MessageResolver) : Prop :=
  ∃ before after, r.message = before ++ x :: after ∧ x.canResolve p = true ∧
    ∀ y ∈ after, y.canResolve p = false

theorem messageResolver_ok {r : Resolvers} {method : String} {p : Parameter} {x : MessageResolver} :
    r.messageResolver method p = .ok x ↔ r.Chooses p x := by
  have hfind : r.messageResolver method p = .ok x ↔
      (r.message.reverse.find? fun y => y.canResolve p) = some x := by
    unfold Resolvers.messageResolver
    cases r.message.reverse.find? fun y => y.canResolve p with
    | none => exact ⟨nofun, nofun⟩
    | some y => exact ⟨fun h => by cases h; rfl, fun h => by cases h; rfl⟩
  rw [hfind, List.find?_eq_some_iff_append]
  constructor
  · rintro ⟨hx, as, bs, heq, has⟩
    refine ⟨bs.reverse, as.reverse, ?_, hx, fun y hy => ?_⟩
    · rw [← List.reverse_reverse r.message, heq]
      simp
    · simpa using has y (List.mem_reverse.mp hy)
  · rintro ⟨before, after, heq, hx, hafter⟩
    refine ⟨hx, after.reverse, before.reverse, by simp [heq], fun y hy => ?_⟩
    simp [hafter y (List.mem_reverse.mp hy)]

theorem messageResolver_error {r : Resolvers} {method : String} {p : Parameter}
    {x : ConfigurationError} (h : r.messageResolver method p = .error x) :
    (∀ y, ¬ r.Chooses p y) ∧ x = .noResolver method p.display := by
  constructor
  · intro y hy
    rw [messageResolver_ok.mpr hy] at h
    cases h
  · unfold Resolvers.messageResolver at h
    split at h <;> cases h
    rfl

/-- By the standard resolvers a message parameter takes single messages of its type. -/
theorem chooses_single {t : MessageType} {x : MessageResolver}
    (h : Resolvers.standard.Chooses (.message t) x) : x = .single := by
  have hx : Resolvers.standard.messageResolver "" (.message t) = .ok x := messageResolver_ok.mpr h
  cases hx
  rfl

/-- By the standard resolvers a sequence parameter takes a sequence of messages of its type. -/
theorem chooses_sequence {t : MessageType} {x : MessageResolver}
    (h : Resolvers.standard.Chooses (.messages t) x) : x = .sequence := by
  have hx : Resolvers.standard.messageResolver "" (.messages t) = .ok x := messageResolver_ok.mpr h
  cases hx
  rfl

/-- The calls that a method is invoked with for messages, by the resolver of its message parameter,
and the messages that it selects: none if it selects no message, one for each selected message, in
order, where it takes single ones, and one with all of them where it takes a sequence. -/
structure Method.Called (p : Publisher σ) (ms : List Message) (m : Method σ) (r : MessageResolver)
    (ss : List Message) (cs : List Call) : Prop where
  resolver : p.resolvers.Chooses m.parameter r
  selected : m.Selects (r.messageType m.parameter) ms ss
  unselected : ss = [] → cs = []
  spread : ss ≠ [] → cs.map Call.argument = r.arguments ss
  single : r = .single → cs.map Call.argument = ss.map .single
  batch : r = .sequence → ss ≠ [] → cs.map Call.argument = [.batch ss]
  filled : ∀ c ∈ cs, resolveTarget m p.components = .ok c.target ∧
    p.resolvers.furtherArguments m.name p.components m.further = .ok c.further
  /-- By the standard resolvers, what the parameter is declared to take is what it takes. -/
  message : p.resolvers = .standard → ∀ t, m.parameter = .message t →
    m.Selects t ms ss ∧ cs.map Call.argument = ss.map .single
  messages : p.resolvers = .standard → ∀ t, m.parameter = .messages t →
    m.Selects t ms ss ∧ (ss ≠ [] → cs.map Call.argument = [.batch ss])

/-- Something that the method needs for the messages cannot be resolved: the parameter that takes
them, the component it is declared on, or a further parameter. -/
inductive Method.Unresolved (p : Publisher σ) (ms : List Message) (m : Method σ) :
    ConfigurationError → Prop
  | parameter (h : ∀ r, ¬ p.resolvers.Chooses m.parameter r) :
    Unresolved p ms m (.noResolver m.name m.parameter.display)
  | target {r : MessageResolver} {ss : List Message} {x : ConfigurationError}
    (hr : p.resolvers.Chooses m.parameter r) (hs : m.Selects (r.messageType m.parameter) ms ss)
    (hne : ss ≠ []) (h : resolveTarget m p.components = .error x) : Unresolved p ms m x
  | further {r : MessageResolver} {ss : List Message} {target : Option Value} {x : ConfigurationError}
    (hr : p.resolvers.Chooses m.parameter r) (hs : m.Selects (r.messageType m.parameter) ms ss)
    (hne : ss ≠ []) (ht : resolveTarget m p.components = .ok target)
    (h : p.resolvers.furtherArguments m.name p.components m.further = .error x) : Unresolved p ms m x

variable {p : Publisher σ}

/-- It is enough that the resolver has spread the selected messages over the calls. -/
theorem Method.Called.of_spread {m : Method σ} {ms ss : List Message} {r : MessageResolver}
    {cs : List Call} (hr : p.resolvers.Chooses m.parameter r)
    (hs : m.Selects (r.messageType m.parameter) ms ss) (hunselected : ss = [] → cs = [])
    (hspread : ss ≠ [] → cs.map Call.argument = r.arguments ss)
    (hfilled : ∀ c ∈ cs, resolveTarget m p.components = .ok c.target ∧
      p.resolvers.furtherArguments m.name p.components m.further = .ok c.further) :
    m.Called p ms r ss cs := by
  have hsingle : r = .single → cs.map Call.argument = ss.map .single := by
    rintro rfl
    by_cases hss : ss = []
    · rw [hunselected hss, hss]
      rfl
    · exact hspread hss
  have hbatch : r = .sequence → ss ≠ [] → cs.map Call.argument = [.batch ss] := by
    rintro rfl hss
    exact hspread hss
  refine ⟨hr, hs, hunselected, hspread, hsingle, hbatch, hfilled, ?_, ?_⟩
  · intro hp t ht
    rw [hp, ht] at hr
    obtain rfl := chooses_single hr
    rw [ht] at hs
    exact ⟨hs, hsingle rfl⟩
  · intro hp t ht
    rw [hp, ht] at hr
    obtain rfl := chooses_sequence hr
    rw [ht] at hs
    exact ⟨hs, hbatch rfl⟩

/-- The calls of a method, or what keeps it from being invoked. -/
theorem calls_cases (p : Publisher σ) (ms : List Message) (m : Method σ) :
    (∃ r ss cs, calls p.resolvers p.components m ms = .ok cs ∧ m.Called p ms r ss cs) ∨
    ∃ x, calls p.resolvers p.components m ms = .error x ∧ m.Unresolved p ms x := by
  unfold calls
  cases hresolver : p.resolvers.messageResolver m.name m.parameter with
  | error x =>
    obtain ⟨hnone, rfl⟩ := messageResolver_error hresolver
    exact .inr ⟨_, rfl, .parameter hnone⟩
  | ok r =>
    have hchooses := messageResolver_ok.mp hresolver
    have hselects : m.Selects (r.messageType m.parameter) ms _ := selects_iff.mpr rfl
    simp only [bind, Except.bind, pure, Except.pure]
    generalize select m (r.messageType m.parameter) ms = ss at hselects ⊢
    split
    · next hempty =>
      exact .inl ⟨r, ss, [], rfl, .of_spread hchooses hselects (fun _ => rfl)
        (absurd (List.isEmpty_iff.mp hempty) ·) nofun⟩
    · next hempty =>
      have hsome : ss ≠ [] := fun hnone => hempty (List.isEmpty_iff.mpr hnone)
      cases htarget : resolveTarget m p.components with
      | error x => exact .inr ⟨x, rfl, .target hchooses hselects hsome htarget⟩
      | ok target =>
        cases hfurther : p.resolvers.furtherArguments m.name p.components m.further with
        | error x => exact .inr ⟨x, rfl, .further hchooses hselects hsome htarget hfurther⟩
        | ok further =>
          refine .inl ⟨r, ss, _, rfl, .of_spread hchooses hselects (absurd · hsome) (fun _ => ?_)
            fun c hc => ?_⟩
          · rw [List.map_map]
            exact List.map_id _
          · obtain ⟨a, -, rfl⟩ := List.mem_map.mp hc
            exact ⟨htarget, hfurther⟩

theorem called_of_calls {ms : List Message} {m : Method σ} {cs : List Call}
    (h : calls p.resolvers p.components m ms = .ok cs) : ∃ r ss, m.Called p ms r ss cs := by
  rcases calls_cases p ms m with ⟨r, ss, cs', hcs, hcalled⟩ | ⟨x, hx, -⟩
  · rw [h] at hcs
    cases hcs
    exact ⟨r, ss, hcalled⟩
  · rw [h] at hx
    cases hx

theorem unresolved_of_calls {ms : List Message} {m : Method σ} {x : ConfigurationError}
    (h : calls p.resolvers p.components m ms = .error x) : m.Unresolved p ms x := by
  rcases calls_cases p ms m with ⟨r, ss, cs, hcs, -⟩ | ⟨x', hx', hunresolved⟩
  · rw [h] at hcs
    cases hcs
  · rw [h] at hx'
    cases hx'
    exact hunresolved

/-- A method without further parameters that is declared on no component can always be invoked. -/
theorem resolves {m : Method σ} {r : MessageResolver}
    (hr : p.resolvers.messageResolver m.name m.parameter = .ok r) (ht : m.target = none)
    (hf : m.further = []) (ms : List Message) (x : ConfigurationError) : ¬ m.Unresolved p ms x := by
  intro h
  cases h with
  | parameter hnone => exact hnone r (messageResolver_ok.mp hr)
  | target _ _ _ h =>
    unfold resolveTarget at h
    rw [ht] at h
    cases h
  | further _ _ _ _ h =>
    rw [hf] at h
    cases h

variable [TaskState σ] {mode : Mode} {self : Republish σ} {ms : List Message} {m : Method σ}
  {h : List (Event σ)}

namespace Publisher

/-- The method has been invoked for the messages: its handler has answered each of the calls, one
after the other unless the method is parallel, and its replies are joined in the order of the
calls. -/
def Invoked (p : Publisher σ) (mode : Mode) (self : Republish σ) (ms : List Message) (m : Method σ)
    (h : List (Event σ)) (rs : List Reply) : Prop :=
  ∃ r ss cs, m.Called p ms r ss cs ∧
    Joined (m.Answers mode self) (if m.parallel then Merges else InOrder) cs h rs

/-- Where each call can only have had the replies that `f` says, so has the method. -/
theorem Invoked.replies {f : Argument → List Reply} {rs : List Reply}
    (hi : p.Invoked mode self ms m h rs)
    (hf : ∀ c h rs, m.Answers mode self c h rs → rs = f c.argument) :
    ∃ r ss cs, m.Called p ms r ss cs ∧ rs = (cs.map Call.argument).flatMap f := by
  obtain ⟨r, ss, cs, hcalled, hj⟩ := hi
  refine ⟨r, ss, cs, hcalled, ?_⟩
  rw [List.flatMap_map]
  exact hj.eq_flatMap fun c _ h rs ha => hf c h rs ha

/-- The method cannot be invoked well: its parameters do not resolve, or its handler has failed or
panicked in one of its calls. -/
def Stumbles (p : Publisher σ) (mode : Mode) (self : Republish σ) (ms : List Message) (m : Method σ)
    (h : List (Event σ)) : Prop :=
  (∃ x, m.Unresolved p ms x) ∨
  ∃ r ss cs, m.Called p ms r ss cs ∧ ∃ c ∈ cs, ∃ h' e, h'.Sublist h ∧ e.Fails ∧
    m.handler.Ends mode self c h' e

theorem Stumbles.mono {h' : List (Event σ)} (hm : p.Stumbles mode self ms m h) (hs : h.Sublist h') :
    p.Stumbles mode self ms m h' := by
  rcases hm with hx | ⟨r, ss, cs, hcs, c, hc, h'', e, hsub, he⟩
  · exact .inl hx
  · exact .inr ⟨r, ss, cs, hcs, c, hc, h'', e, hsub.trans hs, he⟩

theorem runs_invoke {e : End (Except PublishError (List Reply))}
    (hr : Runs (invoke p.resolvers p.components mode self ms m) h e) :
    (∃ rs, e = .done (.ok rs) ∧ p.Invoked mode self ms m h rs) ∨
    (e.Fails ∧ p.Stumbles mode self ms m h) := by
  unfold invoke at hr
  split at hr
  · next x hx =>
    cases hr
    exact .inr ⟨.error _, .inl ⟨_, unresolved_of_calls hx⟩⟩
  · next cs hcs =>
    obtain ⟨r, ss, hcalled⟩ := called_of_calls hcs
    have hcalls : ∀ order, Ran order (cs.map (callOnce mode self m)) h e →
        (∀ hs h, order hs h → (if m.parallel then Merges else InOrder) hs h) →
        (∃ rs, e = .done (.ok rs) ∧ p.Invoked mode self ms m h rs) ∨
        (e.Fails ∧ p.Stumbles mode self ms m h) := by
      intro order hruns horder
      rcases hruns with ⟨rs, rfl, hj⟩ | ⟨he, f, hf, h', e', hs, he', hx⟩
      · refine .inl ⟨rs, rfl, r, ss, cs, hcalled, (hj.of_map fun c h bs hyields => ?_).reorder horder⟩
        rcases runs_callOnce hyields with ⟨_, heq, hanswers⟩ | ⟨he, -⟩
        · cases heq
          exact hanswers
        · exact absurd rfl (he bs)
      · obtain ⟨c, hc, rfl⟩ := List.mem_map.mp hf
        rcases runs_callOnce hx with ⟨rs, rfl, -⟩ | ⟨-, e', he', hends⟩
        · exact absurd rfl (he' rs)
        · exact .inr ⟨he, .inr ⟨r, ss, cs, hcalled, c, hc, h', e', hs, he', hends⟩⟩
    dsimp only at hr
    split at hr
    · next hparallel =>
      rw [Bool.and_eq_true] at hparallel
      refine hcalls Merges (Flow.runs_sideBySide hr) fun hs h hm => ?_
      rwa [if_pos hparallel.1]
    · refine hcalls InOrder (Flow.runs_inTurn hr) fun hs h horder => ?_
      split
      · rw [horder]
        exact .flatten hs
      · exact horder

/-! ## Publishes -/

end Publisher

/-- Replies come apart into values and messages, both in the order in which they were answered. -/
inductive Reply.Splits : List Reply → List Value → List Message → Prop
  | nil : Splits [] [] []
  | value (v : Value) {rs : List Reply} {vs : List Value} {again : List Message}
    (h : Splits rs vs again) : Splits (.value v :: rs) (v :: vs) again
  | messages (returned : List Message) {rs : List Reply} {vs : List Value} {again : List Message}
    (h : Splits rs vs again) : Splits (.messages returned :: rs) vs (returned ++ again)

theorem Reply.Splits.eq {rs : List Reply} {vs : List Value} {again : List Message}
    (h : Reply.Splits rs vs again) : vs = Publisher.values rs ∧ again = Publisher.republished rs := by
  induction h with
  | nil => exact ⟨rfl, rfl⟩
  | value v _ ih => exact ⟨congrArg (v :: ·) ih.1, ih.2⟩
  | messages returned _ ih => exact ⟨ih.1, congrArg (returned ++ ·) ih.2⟩

/-- A message that is published again was among the messages of a reply. -/
theorem Reply.Splits.exists_of_mem {rs : List Reply} {vs : List Value} {again : List Message}
    (h : Reply.Splits rs vs again) {x : Message} (hx : x ∈ again) :
    ∃ returned, .messages returned ∈ rs ∧ x ∈ returned := by
  induction h with
  | nil => cases hx
  | value v _ ih =>
    obtain ⟨returned, hmem, hx⟩ := ih hx
    exact ⟨returned, List.mem_cons_of_mem _ hmem, hx⟩
  | messages returned _ ih =>
    rcases List.mem_append.mp hx with hx | hx
    · exact ⟨returned, List.mem_cons_self, hx⟩
    · obtain ⟨others, hmem, hx⟩ := ih hx
      exact ⟨others, List.mem_cons_of_mem _ hmem, hx⟩

namespace Publisher

omit [TaskState σ] in
theorem splits (rs : List Reply) : Reply.Splits rs (values rs) (republished rs) := by
  induction rs with
  | nil => exact .nil
  | cons r rs ih =>
    cases r with
    | value v => exact .value v ih
    | messages returned => exact .messages returned ih

/-- The methods have been invoked for the messages, the exclusive ones one after the other and then
the others side by side; the replies are those of the exclusive ones and then those of the others,
both in the order of the methods. -/
def Dispatched (p : Publisher σ) (mode : Mode) (self : Republish σ) (ms : List Message)
    (h : List (Event σ)) (rs : List Reply) : Prop :=
  ∃ h₁ h₂ first rest, h = h₁ ++ h₂ ∧ rs = first ++ rest ∧
    Joined (p.Invoked mode self ms) InOrder (p.methods.filter fun m => m.exclusive) h₁ first ∧
    Joined (p.Invoked mode self ms) Merges (p.methods.filter fun m => !m.exclusive) h₂ rest

/-- What a publish that has come to a result has done: it has dispatched the messages, the values
are those among the replies, and the messages among the replies, if there are any, have been
published again in one further publish, whose own values are dropped. -/
def Accounts (p : Publisher σ) (mode : Mode) (broker depth : Nat) (ms : List Message)
    (h : List (Event σ)) (vs : List Value) (again : List Message) : Prop :=
  ∃ h₀ h₁ rs, h = h₀ ++ h₁ ∧ p.Dispatched mode (p.nested depth) ms h₀ rs ∧
    Reply.Splits rs vs again ∧ (again = [] → h₁ = []) ∧
    (again ≠ [] →
      ∃ dropped, Runs (p.execute mode broker depth again) h₁ (.done (.ok dropped)))

/-- Something that was done in a publish with so many levels of nesting left keeps it from a result:
a method could not be invoked well, publishes nest too deep, or either holds of the further publish
of the messages that were returned. -/
inductive Faulty (p : Publisher σ) (mode : Mode) : Nat → List Message → List (Event σ) → Prop
  | deep (ms : List Message) (h : List (Event σ)) : Faulty p mode 0 ms h
  | method {depth : Nat} {ms : List Message} {h : List (Event σ)} {m : Method σ}
    (hm : m ∈ p.methods) (hs : p.Stumbles mode (p.nested depth) ms m h) : Faulty p mode (depth + 1) ms h
  | again {depth : Nat} {ms again : List Message} {h₀ h₁ : List (Event σ)} {rs : List Reply}
    {vs : List Value} (hd : p.Dispatched mode (p.nested depth) ms h₀ rs)
    (hs : Reply.Splits rs vs again) (hne : again ≠ []) (hf : Faulty p mode depth again h₁) :
    Faulty p mode (depth + 1) ms (h₀ ++ h₁)

theorem stumbles_of_spoilt {methods : List (Method σ)}
    (hs : Spoilt (methods.map (invoke p.resolvers p.components mode self ms)) h) :
    ∃ m ∈ methods, p.Stumbles mode self ms m h := by
  obtain ⟨f, hf, h', e, hsub, he, hr⟩ := hs
  obtain ⟨m, hm, rfl⟩ := List.mem_map.mp hf
  rcases runs_invoke hr with ⟨rs, rfl, -⟩ | ⟨-, hstumbles⟩
  · exact absurd rfl (he rs)
  · exact ⟨m, hm, hstumbles.mono hsub⟩

theorem invoked_of_joined {order : List (List (Event σ)) → List (Event σ) → Prop}
    {methods : List (Method σ)} {rs : List Reply}
    (hj : Joined Yields order (methods.map (invoke p.resolvers p.components mode self ms)) h rs) :
    Joined (p.Invoked mode self ms) order methods h rs := by
  refine hj.of_map fun m h rs hyields => ?_
  rcases runs_invoke hyields with ⟨_, heq, hinvoked⟩ | ⟨he, -⟩
  · cases heq
    exact hinvoked
  · exact absurd rfl (he rs)

/-- The methods are invoked and what follows is concluded, or one of them cannot be invoked well. -/
theorem runs_dispatch {again : List Message → Work σ Published} {e : End Published}
    (hr : Runs (p.dispatch mode self again ms) h e) :
    (∃ h₀ h₁ rs, h = h₀ ++ h₁ ∧ p.Dispatched mode self ms h₀ rs ∧
      Runs (conclude again rs) h₁ e) ∨
    (e.Fails ∧ ∃ m ∈ p.methods, p.Stumbles mode self ms m h) := by
  have hmethods : ∀ {f : Method σ → Bool},
      Spoilt ((p.methods.filter f).map (invoke p.resolvers p.components mode self ms)) h →
      ∃ m ∈ p.methods, p.Stumbles mode self ms m h := by
    intro f hs
    obtain ⟨m, hm, hstumbles⟩ := stumbles_of_spoilt hs
    exact ⟨m, (List.mem_filter.mp hm).1, hstumbles⟩
  unfold dispatch at hr
  rcases Ran.andThen (fun _ _ => Flow.runs_inTurn) hr with
    ⟨h₁, h₂, first, rfl, hfirst, hr⟩ | ⟨he, hs⟩
  · rcases Ran.andThen (fun _ _ => Flow.runs_sideBySide) hr with
      ⟨h₃, h₄, rest, rfl, hrest, hr⟩ | ⟨he, hs⟩
    · refine .inl ⟨h₁ ++ h₃, h₄, first ++ rest, (List.append_assoc ..).symm, ?_, hr⟩
      exact ⟨h₁, h₃, first, rest, rfl, rfl, invoked_of_joined hfirst, invoked_of_joined hrest⟩
    · exact .inr ⟨he, hmethods (hs.mono (List.sublist_append_right h₁ h₂))⟩
  · exact .inr ⟨he, hmethods hs⟩

omit [TaskState σ] in
/-- The values are the result, unless there is a further publish that fails. -/
theorem runs_conclude {again : List Message → Work σ Published} {rs : List Reply}
    {e : End Published} (hr : Runs (conclude again rs) h e) :
    (e = .done (.ok (values rs)) ∧ (republished rs = [] → h = []) ∧
      (republished rs ≠ [] →
        ∃ dropped, Runs (again (republished rs)) h (.done (.ok dropped)))) ∨
    (e.Fails ∧ republished rs ≠ [] ∧ ∃ e', e'.Fails ∧ Runs (again (republished rs)) h e') := by
  unfold conclude at hr
  split at hr
  · next hempty =>
    cases hr
    exact .inl ⟨rfl, fun _ => rfl, (absurd (List.isEmpty_iff.mp hempty) ·)⟩
  · next hempty =>
    have hne : republished rs ≠ [] := fun hnone => hempty (List.isEmpty_iff.mpr hnone)
    rcases Flow.runs_andThen hr with ⟨h₁, h₂, dropped, rfl, hagain, hdone⟩ | ⟨he, hagain⟩
    · cases hdone
      rw [List.append_nil]
      exact .inl ⟨rfl, (absurd · hne), fun _ => ⟨dropped, hagain⟩⟩
    · exact .inr ⟨he, hne, hagain⟩

theorem execute_bare (hb : p.behaviors = []) (mode : Mode) (broker depth : Nat) (hms : ms ≠ []) :
    p.execute mode broker (depth + 1) ms =
      p.dispatch mode (p.nested depth) (p.execute mode broker depth) ms := by
  have hempty : ms.isEmpty = false := by simpa using hms
  rw [execute, hempty, hb]
  rfl

/-- A run of a publish accounts for its result. If it has none, a method could not be invoked well
or the further publish has failed. -/
theorem runs_execute (hb : p.behaviors = []) (hms : ms ≠ []) {broker depth : Nat}
    {e : End Published} (hr : Runs (p.execute mode broker (depth + 1) ms) h e) :
    (∃ vs again, e = .done (.ok vs) ∧ p.Accounts mode broker depth ms h vs again) ∨
    (e.Fails ∧ ((∃ m ∈ p.methods, p.Stumbles mode (p.nested depth) ms m h) ∨
      ∃ h₀ h₁ rs, h = h₀ ++ h₁ ∧ p.Dispatched mode (p.nested depth) ms h₀ rs ∧
        republished rs ≠ [] ∧
        ∃ e', e'.Fails ∧ Runs (p.execute mode broker depth (republished rs)) h₁ e')) := by
  rw [execute_bare hb mode broker depth hms] at hr
  rcases runs_dispatch hr with ⟨h₀, h₁, rs, rfl, hd, hr⟩ | ⟨he, hm⟩
  · rcases runs_conclude hr with ⟨rfl, hnone, hagain⟩ | ⟨he, hne, hagain⟩
    · exact .inl ⟨values rs, republished rs, rfl, h₀, h₁, rs, rfl, hd, splits rs, hnone, hagain⟩
    · exact .inr ⟨he, .inr ⟨h₀, h₁, rs, rfl, hd, hne, hagain⟩⟩
  · exact .inr ⟨he, .inl hm⟩

/-- A publish without a result is faulty. The induction is on the levels of nesting that are left: a
further publish fails one level down. -/
theorem faulty_of_runs (hb : p.behaviors = []) {broker depth : Nat} {e : End Published}
    (hr : Runs (p.execute mode broker depth ms) h e) (he : e.Fails) : p.Faulty mode depth ms h := by
  induction depth generalizing ms h e with
  | zero => exact .deep ms h
  | succ depth ih =>
    by_cases hms : ms = []
    · subst hms
      cases hr
      exact absurd rfl (he [])
    · rcases runs_execute hb hms hr with ⟨vs, again, rfl, -⟩ |
        ⟨-, ⟨m, hm, hs⟩ | ⟨h₀, h₁, rs, rfl, hd, hne, e', he', hr⟩⟩
      · exact absurd rfl (he vs)
      · exact .method hm hs
      · exact .again hd (splits rs) hne (ih hr he')

/-- **A publish that is polled for long enough is over.** If nothing in it is faulty it has a
result, and a result accounts for what was done. -/
theorem execute_accounts (hb : p.behaviors = []) (hms : ms ≠ []) (mode : Mode) (broker depth : Nat)
    {plan : Schedule σ} (hplan : plan.Fair) :
    let flow := p.execute mode broker (depth + 1) ms
    ∃ n e, (Flow.after plan flow n).end? = some e ∧
      (¬ p.Faulty mode (depth + 1) ms (Flow.history plan flow n) → ∃ vs, e = .done (.ok vs)) ∧
      ∀ vs, e = .done (.ok vs) →
        ∃ again, p.Accounts mode broker depth ms (Flow.history plan flow n) vs again := by
  intro flow
  obtain ⟨n, e, hend, hruns⟩ := Flow.ends_runs hplan flow
  refine ⟨n, e, hend, ?_⟩
  rcases runs_execute hb hms hruns with ⟨vs, again, rfl, haccounts⟩ | ⟨he, -⟩
  · refine ⟨fun _ => ⟨vs, rfl⟩, fun vs' heq => ?_⟩
    cases heq
    exact ⟨again, haccounts⟩
  · exact ⟨(absurd (faulty_of_runs hb hruns he) ·), fun vs heq => absurd heq (he vs)⟩

/-! ### Publishes whose answers come to an end -/

/-- Every reply is what the handler of a method has answered to one of its calls. -/
theorem Dispatched.answered {rs : List Reply} (hd : p.Dispatched mode self ms h rs) {reply : Reply}
    (hreply : reply ∈ rs) : ∃ m ∈ p.methods, ∃ r ss cs, m.Called p ms r ss cs ∧ ∃ c ∈ cs, ∃ h',
      m.handler.Ends mode self c h' (.done (.ok (some reply))) := by
  have hmethods : ∀ {order} {f : Method σ → Bool} {h' rs'},
      Joined (p.Invoked mode self ms) order (p.methods.filter f) h' rs' → reply ∈ rs' →
      ∃ m ∈ p.methods, ∃ r ss cs, m.Called p ms r ss cs ∧ ∃ c ∈ cs, ∃ h',
        m.handler.Ends mode self c h' (.done (.ok (some reply))) := by
    intro order f h' rs' hj hmem
    obtain ⟨m, hm, h'', rs'', ⟨r, ss, cs, hcalled, hcalls⟩, hmem⟩ := hj.exists_of_mem hmem
    obtain ⟨c, hc, run, _, ⟨found, hends, rfl⟩, hmem⟩ := hcalls.exists_of_mem hmem
    cases Option.mem_toList.mp hmem
    exact ⟨m, (List.mem_filter.mp hm).1, r, ss, cs, hcalled, c, hc, run, hends⟩
  obtain ⟨h₁, h₂, first, rest, -, rfl, hexclusive, hconcurrent⟩ := hd
  exact (List.mem_append.mp hreply).elim (hmethods hexclusive) (hmethods hconcurrent)

end Publisher

/-- The method can always be invoked, its handler answers every call, and the messages that it
returns rank below one of those that were published. -/
structure Method.Descends (p : Publisher σ) (mode : Mode) (rank : Message → Nat) (m : Method σ) :
    Prop where
  resolves : ∀ ms x, ¬ m.Unresolved p ms x
  answers : ∀ self c h e, m.handler.Ends mode self c h e → ∃ reply, e = .done (.ok reply)
  descends : ∀ self ms r ss cs, m.Called p ms r ss cs → ∀ c ∈ cs, ∀ h returned,
    m.handler.Ends mode self c h (.done (.ok (some (.messages returned)))) →
      ∀ x ∈ returned, ∃ given ∈ ms, rank x < rank given

namespace Publisher

/-- **Publishes whose handlers answer with messages of ever lower rank are not faulty.** The
induction is on the levels of nesting that are left, of which there are more than the highest
rank. -/
theorem not_faulty {rank : Message → Nat} (hm : ∀ m ∈ p.methods, m.Descends p mode rank)
    {depth : Nat} (hms : ms ≠ []) (hrank : ∀ x ∈ ms, rank x < depth) :
    ¬ p.Faulty mode depth ms h := by
  induction depth generalizing ms h with
  | zero =>
    obtain ⟨x, hx⟩ := List.exists_mem_of_ne_nil ms hms
    exact absurd (hrank x hx) (Nat.not_lt_zero _)
  | succ depth ih =>
    intro hfaulty
    cases hfaulty with
    | method hmem hs =>
      rcases hs with ⟨x, hx⟩ | ⟨r, ss, cs, -, c, -, h', e, -, he, hends⟩
      · exact (hm _ hmem).resolves ms x hx
      · obtain ⟨reply, rfl⟩ := (hm _ hmem).answers _ c h' e hends
        exact he reply rfl
    | again hd hs hne hf =>
      refine ih hne (fun x hx => ?_) hf
      obtain ⟨returned, hreply, hx⟩ := hs.exists_of_mem hx
      obtain ⟨m, hmem, r, ss, cs, hcalled, c, hc, h', hends⟩ := hd.answered hreply
      obtain ⟨given, hgiven, hlt⟩ :=
        (hm m hmem).descends _ ms r ss cs hcalled c hc h' returned hends x hx
      exact Nat.lt_of_lt_of_le hlt (Nat.le_of_lt_succ (hrank given hgiven))

end Publisher

/-! ### A publisher of orders -/

namespace Publisher.Shop

/-- A record without fields. -/
def blank (name : String) (kind : Kind) : Message := .record ⟨⟨name, [kind], []⟩, ()⟩

def invoice : Message := blank "Invoice" .event

/-- Every order is answered with an invoice. -/
def bills : Method (Scope Unit) where
  name := "bills"
  handler := .async fun _ _ => .done (.ok (some (.messages [invoice])))
  parameter := .message (.kind .command)

/-- Whatever is published is counted. -/
def counts : Method (Scope Unit) where
  name := "counts"
  handler := .blocking fun _ c _ s =>
    (.answered (.ok (some (.value (.number (.ofNat c.argument.messages.length))))), s)
  parameter := .messages .any
  exclusive := false

/-- Orders are packed two at a time, unless they are vouchers; a parcel takes longer than a letter. -/
def packs : Method (Scope Unit) where
  name := "packs"
  handler := .async fun c _ =>
    .sleep (if c.argument.messages.any fun x => x.typeName == "Parcel" then 2000 else 1000)
      (.done (.ok (some (.value (.text (String.join (c.argument.messages.map Message.typeName)))))))
  parameter := .message (.kind .command)
  exclusive := false
  parallel := true
  maxDegree := some 2
  filters := [fun x => x.typeName != "Voucher"]

def shop : Publisher (Scope Unit) := ⟨[], [bills, counts, packs], .standard, [], 0, 2⟩

def orders : List Message := [blank "Parcel" .command, blank "Letter" .command]

/-- A parcel, a letter in an envelope, a gift in one that is not to be unwrapped, something that is no
order, and a voucher. -/
def basket : List Message :=
  [blank "Parcel" .command, .outbound (blank "Letter" .command) .empty ⟨"post", none, []⟩ true,
    .outbound (blank "Gift" .command) .empty ⟨"post", none, []⟩ false, blank "Receipt" .event,
    blank "Voucher" .command]

/-- A poll every second, which finds nothing done by others. -/
def everySecond : Schedule (Scope Unit) := fun n => (1000 * n, ⟨.create .memory, none⟩)

/-- Orders rank above invoices. -/
def rank (x : Message) : Nat := if x.unwrap.any fun u => u.hasKind .command then 1 else 0

theorem rank_selected {m : Method (Scope Unit)} {ms ss : List Message}
    (h : m.Selects (.kind .command) ms ss) (hne : ss ≠ []) : ∃ given ∈ ms, 0 < rank given := by
  obtain ⟨x, hx⟩ := List.exists_mem_of_ne_nil _ hne
  rw [← selects_iff.mp h] at hx
  obtain ⟨hx, hkind⟩ := List.mem_filter.mp hx
  obtain ⟨given, hgiven, hunwrap⟩ := List.mem_filterMap.mp hx
  refine ⟨given, (List.mem_filter.mp hgiven).1, ?_⟩
  have hx : given.unwrap = some x := hunwrap
  have hx : given.unwrap.any (fun u => u.hasKind .command) = true := by
    rw [hx]
    exact hkind
  unfold rank
  rw [if_pos hx]
  exact Nat.one_pos

theorem bills_descends (mode : Mode) : bills.Descends shop mode rank where
  resolves := resolves rfl rfl rfl
  answers self c h e hends := by
    change Handler.Ends mode self c (.async _) h e at hends
    cases hends with
    | async hr =>
      cases hr
      exact ⟨_, rfl⟩
  descends self ms r ss cs hcalled c hc h returned hends := by
    -- the handler was called, so an order was selected
    have hselected := mt hcalled.unselected (List.ne_nil_of_mem hc)
    obtain ⟨given, hgiven, hrank⟩ := rank_selected (hcalled.message rfl _ rfl).1 hselected
    change Handler.Ends mode self c (.async _) h _ at hends
    cases hends with
    | async hr =>
      cases hr
      intro x hx
      cases List.mem_singleton.mp hx
      exact ⟨given, hgiven, hrank⟩

theorem counts_descends (mode : Mode) : counts.Descends shop mode rank where
  resolves := resolves rfl rfl rfl
  answers self c h e hends := by
    change Handler.Ends mode self c (.blocking _) h e at hends
    cases hends with
    | blocking now s => cases mode <;> exact ⟨_, rfl⟩
  descends self ms r ss cs hcalled c hc h returned hends := by
    change Handler.Ends mode self c (.blocking _) h _ at hends
    generalize he : (.done (.ok (some (.messages returned))) : End Answer) = e at hends
    cases hends with
    | blocking now s => cases mode <;> cases he

theorem packs_descends (mode : Mode) : packs.Descends shop mode rank where
  resolves := resolves rfl rfl rfl
  answers self c h e hends := by
    change Handler.Ends mode self c (.async _) h e at hends
    cases hends with
    | async hr =>
      cases hr with
      | clock now hr =>
        cases hr with
        | wait hr =>
          cases hr
          exact ⟨_, rfl⟩
  descends self ms r ss cs hcalled c hc h returned hends := by
    change Handler.Ends mode self c (.async _) h _ at hends
    cases hends with
    | async hr =>
      cases hr with
      | clock now hr =>
        cases hr with
        | wait hr => cases hr

theorem shop_descends (mode : Mode) : ∀ m ∈ shop.methods, m.Descends shop mode rank := by
  intro m hm
  have hm : m ∈ [bills, counts, packs] := hm
  simp only [List.mem_cons, List.not_mem_nil, or_false] at hm
  rcases hm with rfl | rfl | rfl
  · exact bills_descends mode
  · exact counts_descends mode
  · exact packs_descends mode

/-- The reply of a method to what it is called with. -/
def reply (m : Method (Scope Unit)) (a : Argument) : List Reply :=
  if m.exclusive then [.messages [invoice]]
  else if m.parallel then [.value (.text (String.join (a.messages.map Message.typeName)))]
  else [.value (.number (.ofNat a.messages.length))]

variable {mode : Mode} {self : Republish (Scope Unit)} {c : Call} {h : List (Event (Scope Unit))}
  {rs : List Reply}

theorem bills_answers (ha : bills.Answers mode self c h rs) : rs = reply bills c.argument := by
  obtain ⟨reply, hends, rfl⟩ := ha
  change Handler.Ends mode self c (.async _) h _ at hends
  cases hends with
  | async hr =>
    cases hr
    rfl

theorem counts_answers (ha : counts.Answers mode self c h rs) : rs = reply counts c.argument := by
  obtain ⟨reply, hends, rfl⟩ := ha
  change Handler.Ends mode self c (.blocking _) h _ at hends
  generalize he : (.done (.ok reply) : End Answer) = e at hends
  cases hends with
  | blocking now s => cases mode <;> cases he <;> rfl

theorem packs_answers (ha : packs.Answers mode self c h rs) : rs = reply packs c.argument := by
  obtain ⟨reply, hends, rfl⟩ := ha
  change Handler.Ends mode self c (.async _) h _ at hends
  cases hends with
  | async hr =>
    cases hr with
    | clock now hr =>
      cases hr with
      | wait hr =>
        cases hr
        rfl

/-- The replies of the methods to the basket. -/
def replies (m : Method (Scope Unit)) : List Reply :=
  if m.exclusive then List.replicate 3 (.messages [invoice])
  else if m.parallel then [.value (.text "Parcel"), .value (.text "Letter")]
  else [.value (.number 4)]

theorem bills_invoked (hi : shop.Invoked mode self basket bills h rs) : rs = replies bills := by
  obtain ⟨r, ss, cs, hcalled, rfl⟩ := hi.replies (f := reply bills) fun c h rs => bills_answers
  obtain ⟨hss, hcs⟩ := hcalled.message rfl _ rfl
  rw [hcs, ← selects_iff.mp hss]
  rfl

theorem counts_invoked (hi : shop.Invoked mode self basket counts h rs) : rs = replies counts := by
  obtain ⟨r, ss, cs, hcalled, rfl⟩ := hi.replies (f := reply counts) fun c h rs => counts_answers
  obtain ⟨hss, hcs⟩ := hcalled.messages rfl _ rfl
  obtain rfl := selects_iff.mp hss
  rw [hcs (by decide)]
  rfl

theorem packs_invoked (hi : shop.Invoked mode self basket packs h rs) : rs = replies packs := by
  obtain ⟨r, ss, cs, hcalled, rfl⟩ := hi.replies (f := reply packs) fun c h rs => packs_answers
  obtain ⟨hss, hcs⟩ := hcalled.message rfl _ rfl
  rw [hcs, ← selects_iff.mp hss]
  rfl

/-- The gift is not counted and the voucher not packed. -/
theorem shop_accounts {vs : List Value} {again : List Message}
    (ha : shop.Accounts mode 0 1 basket h vs again) :
    vs = [.number 4, .text "Parcel", .text "Letter"] ∧ again = [invoice, invoice, invoice] := by
  obtain ⟨h₀, h₁, rs, -, ⟨_, _, first, rest, -, rfl, hexclusive, hconcurrent⟩, hsplits, -, -⟩ := ha
  have hfirst : first = [bills].flatMap replies := hexclusive.eq_flatMap fun m hm h rs hi => by
    obtain rfl := List.mem_singleton.mp hm
    exact bills_invoked hi
  have hrest : rest = [counts, packs].flatMap replies := hconcurrent.eq_flatMap fun m hm h rs hi => by
    have hm : m ∈ [counts, packs] := hm
    simp only [List.mem_cons, List.not_mem_nil, or_false] at hm
    rcases hm with rfl | rfl
    · exact counts_invoked hi
    · exact packs_invoked hi
  subst hfirst hrest
  exact hsplits.eq

/-- What is ordered has a result, after an invoice was published again for each order. -/
theorem execute_accounts_orders : shop.behaviors = [] ∧ basket ≠ [] ∧ everySecond.Fair ∧
    ∃ n, (Flow.after everySecond (shop.execute .async 0 2 basket) n).end? =
        some (.done (.ok [.number 4, .text "Parcel", .text "Letter"])) ∧
      shop.Accounts .async 0 1 basket
        (Flow.history everySecond (shop.execute .async 0 2 basket) n)
        [.number 4, .text "Parcel", .text "Letter"] [invoice, invoice, invoice] := by
  have hne : basket ≠ [] := by simp [basket]
  have hfair : everySecond.Fair := fun t => ⟨t, fun m hm => by unfold everySecond; omega⟩
  refine ⟨rfl, hne, hfair, ?_⟩
  obtain ⟨n, e, hend, hresult, haccounts⟩ := execute_accounts (p := shop) rfl hne .async 0 1 hfair
  have hrank : ∀ x ∈ basket, rank x < 2 := by decide
  obtain ⟨vs, rfl⟩ := hresult (not_faulty (shop_descends .async) hne hrank)
  obtain ⟨again, haccounts⟩ := haccounts vs rfl
  obtain ⟨rfl, rfl⟩ := shop_accounts haccounts
  exact ⟨n, hend, haccounts⟩

/-- The parcel is packed last and comes first. -/
example : (Flow.after everySecond (shop.execute .async 0 2 orders) 3).end? =
    some (.done (.ok [.number 2, .text "Parcel", .text "Letter"])) := by rfl

end Publisher.Shop

end Relay
