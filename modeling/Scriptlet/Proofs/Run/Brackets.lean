import Scriptlet.Proofs.Run.NativeCall
import Scriptlet.Proofs.Run.Trace

/-!
# Events are bracketed

A run with frames keeps the script functions that are active: a function is active from where it is
called, with arguments that fit and within the limit, up to where it returns. A failure leaves the
active functions where they are, so they can be looked at behind it. Frames change nothing else.

What a call with frames tells is told against the words of calls. If it ends with a value, then it
has told a word, and no function is active any more. If it fails, then it has told the beginning of
a word, and the calls open in it are those of the active functions.

## Main definitions

* `Framed` — a host, and the script functions that are active
* `Interpreter.framedCall`, `Interpreter.framedRun` — calls and runs that keep frames
* `Outcome.Bracketed` — how events and frames fit together

## Main results

* `Interpreter.follows_framedInvoke` — frames change nothing, and events go with them
* `Interpreter.bracketed` — the events of every call and run of a script function are bracketed
-/

namespace Scriptlet

open Trace

variable {σ α β : Type}

/-- The state of a host, and the script functions that are active, from the outermost to the
innermost. -/
abbrev Framed (σ : Type) := σ × List ScriptFunction

/-! ### Running with frames -/

namespace Run

/-- A run in the course of which no script function is called. -/
def framed (m : Run σ α) : Run (Framed σ) α := fun h =>
  let o := m h.1
  ⟨o.result, (o.host, h.2), o.events⟩

/-- A run inside a function, which is active until the run ends with a value. -/
def within (f : ScriptFunction) (m : Run (Framed σ) α) : Run (Framed σ) α := fun h =>
  match m (h.1, h.2 ++ [f]) with
  | ⟨.ok a, h, es⟩ => ⟨.ok a, (h.1, h.2.dropLast), es⟩
  | ⟨.error e, h, es⟩ => ⟨.error e, h, es⟩

end Run

namespace Interpreter

variable (it : Interpreter σ)

/-- `invoke` with frames. -/
def framedInvoke : (budget : Nat) → ScriptFunction → List Value → Span → Run (Framed σ) Value
  | 0, f, args, span => do
    checkArity f.name.name f.arity args.length span
    Run.fail (.callDepthExceeded f.name.name it.config.maxCallDepth.toNat span)
  | budget + 1, f, args, span => do
    checkArity f.name.name f.arity args.length span
    Run.within f do
      Run.tell (.invoke f.name.name (it.config.maxCallDepth.toNat - budget))
      let scope ← bindAll ∅ (f.params.zip args)
      runBody
        (fun callee values span =>
          match it.program.get? callee.name with
          | none => Run.fail (.unknownFunction callee.name callee.span)
          | some (.script g) => framedInvoke budget g values span
          | some (.native i) => (callNative it.natives i values span).framed)
        f.name.name scope f.body

/-- `call` with frames. -/
def framedCall (name : String) (args : List Value) : Run (Framed σ) Value :=
  match it.program.get? name with
  | none => Run.fail (.missingEntryPoint name)
  | some (.script f) => it.framedInvoke it.config.maxCallDepth.toNat f args f.name.span
  | some (.native i) => (callNative it.natives i args i.name.span).framed

/-- `run` with frames. -/
def framedRun : Run (Framed σ) Value :=
  match it.program.get? it.config.entryPoint with
  | none => Run.fail (.missingEntryPoint it.config.entryPoint)
  | some (.script f) =>
    if f.params.isEmpty then it.framedInvoke it.config.maxCallDepth.toNat f [] f.name.span
    else Run.fail (.invalidEntryPoint it.config.entryPoint f.name.span)
  | some (.native i) => Run.fail (.invalidEntryPoint it.config.entryPoint i.name.span)

end Interpreter

/-! ### Events along the frames -/

/-- The outcomes of a run and of the same run with frames, of which some were there before. What was
told goes with the value, or with the functions that a failure leaves active. -/
inductive Outcome.Follows (S : α → List Event → Prop) (F : List ScriptFunction → List Event → Prop)
    (frames : List ScriptFunction) : Outcome σ α → Outcome (Framed σ) α → Prop
  | ok {a h es} (hs : S a es) : Follows S F frames ⟨.ok a, h, es⟩ ⟨.ok a, (h, frames), es⟩
  | error {e h es active} (hf : F active es) :
      Follows S F frames ⟨.error e, h, es⟩ ⟨.error e, (h, frames ++ active), es⟩

theorem Outcome.Follows.mono {S S' : α → List Event → Prop}
    {F F' : List ScriptFunction → List Event → Prop} {frames : List ScriptFunction}
    {o : Outcome σ α} {o' : Outcome (Framed σ) α} (h : o.Follows S F frames o')
    (hS : ∀ a es, S a es → S' a es) (hF : ∀ active es, F active es → F' active es) :
    o.Follows S' F' frames o' := by
  cases h with
  | ok hs => exact .ok (hS _ _ hs)
  | error hf => exact .error (hF _ _ hf)

namespace Run

/-- A run with frames does what a run without them does, and its events go with the frames. -/
def Follows (S : α → List Event → Prop) (F : List ScriptFunction → List Event → Prop)
    (m : Run σ α) (m' : Run (Framed σ) α) : Prop :=
  ∀ h frames, (m h).Follows S F frames (m' (h, frames))

/-- Two runs of which one does with frames what the other does, inside a call at a depth. -/
abbrev Inside (d : Nat) (m : Run σ α) (m' : Run (Framed σ) α) : Prop :=
  Follows (fun _ => Trace.Inside d) (Unfinished d) m m'

namespace Follows

variable {S : α → List Event → Prop} {F : List ScriptFunction → List Event → Prop} {d : Nat}

theorem pure {a : α} (hs : S a []) : Follows (σ := σ) S F (Pure.pure a) (Pure.pure a) :=
  fun _ _ => .ok hs

theorem fail {e : RuntimeError} (hf : F [] []) :
    Follows (α := α) (σ := σ) S F (Run.fail e) (Run.fail e) := by
  intro h frames
  have hframes : Outcome.Follows S F frames ⟨.error e, h, []⟩ ⟨.error e, (h, frames ++ []), []⟩ :=
    .error hf
  rwa [List.append_nil] at hframes

/-- A run that goes on inside a call with what fits behind it. -/
theorem bind {m : Run σ α} {m' : Run (Framed σ) α} {f : α → Run σ β} {f' : α → Run (Framed σ) β}
    {T : β → List Event → Prop} (hm : Inside d m m')
    (hf : ∀ a, Follows T (Unfinished d) (f a) (f' a))
    (hT : ∀ b es es', Trace.Inside d es → T b es' → T b (es ++ es')) :
    Follows T (Unfinished d) (m >>= f) (m' >>= f') := by
  intro h frames
  have hfirst := hm h frames
  rcases ho : m h with ⟨r, h₁, es⟩
  rcases ho' : m' (h, frames) with ⟨r', h₁', es'⟩
  rw [ho, ho'] at hfirst
  cases hfirst with
  | error hf =>
    rw [bind_of_error f ho, bind_of_error f' ho']
    exact .error hf
  | @ok a _ _ hi =>
    rw [bind_of_ok f ho, bind_of_ok f' ho']
    have hsecond := hf a h₁ frames
    generalize f a h₁ = o, f' a (h₁, frames) = o' at hsecond ⊢
    cases hsecond with
    | ok hs => exact .ok (hT _ _ _ hi hs)
    | error hu => exact .error (hu.append hi)

end Follows

namespace Inside

variable {d : Nat}

theorem pure (a : α) : Inside (σ := σ) d (Pure.pure a) (Pure.pure a) := Follows.pure .nil

theorem fail (e : RuntimeError) : Inside (α := α) (σ := σ) d (Run.fail e) (Run.fail e) :=
  Follows.fail (.here .nil)

theorem bind {m : Run σ α} {m' : Run (Framed σ) α} {f : α → Run σ β} {f' : α → Run (Framed σ) β}
    (hm : Inside d m m') (hf : ∀ a, Inside d (f a) (f' a)) : Inside d (m >>= f) (m' >>= f') :=
  Follows.bind hm hf fun _ _ _ h h' => h.append h'

theorem ofExcept (r : Except RuntimeError α) :
    Inside (σ := σ) d (Run.ofExcept r) (Run.ofExcept r) := by
  cases r with
  | error e => exact fail e
  | ok a => exact pure a

theorem tell {e : Event} (he : Trace.Inside d [e]) :
    Inside (σ := σ) d (Run.tell e) (Run.tell e) :=
  fun _ _ => .ok he

theorem framed {m : Run σ α} (hm : ∀ h, Trace.Inside d (m h).events) : Inside d m m.framed := by
  intro h frames
  have hi := hm h
  rw [Run.framed]
  generalize m h = o at hi ⊢
  rcases o with ⟨e | a, h', es⟩
  · have hframes : Outcome.Follows (fun _ : α => Trace.Inside d) (Unfinished d) frames
        ⟨.error e, h', es⟩ ⟨.error e, (h', frames ++ []), es⟩ := .error (.here hi)
    rwa [List.append_nil] at hframes
  · exact .ok hi

theorem callNative (natives : Registry σ) (i : Import) (args : List Value) (span : Span) :
    Inside d (callNative natives i args span) (callNative natives i args span).framed := by
  refine framed fun h => ?_
  rcases natives.accepts_or_refuses i args.length span with ⟨f, hf⟩ | ⟨e, he⟩
  · rw [callNative_of_accepts hf]
    exact .nativeCall .nil
  · rw [callNative_of_refuses he]
    exact .nil

end Inside

end Run

section

variable {d : Nat} {call : Caller σ} {call' : Caller (Framed σ)}

mutual

/-- Evaluating an expression goes with the frames if calls do. -/
theorem Expr.inside_eval (hc : ∀ callee args span, (call callee args span).Inside d
    (call' callee args span)) (s : Scope) : ∀ e : Expr,
      (e.eval call s).Inside d (e.eval call' s)
  | .number _ _ | .bool _ _ | .string _ _ => .pure _
  | .identifier name span => by
    rw [eval, eval]
    cases s.get? name with
    | none => exact .fail _
    | some v => exact .pure v
  | .binary _ lhs op opSpan rhs _ => by
    rw [eval, eval]
    refine .bind (inside_eval hc s lhs) fun a => ?_
    exact .bind (inside_eval hc s rhs) fun b => .ofExcept _
  | .call callee args span => by
    rw [eval, eval]
    exact .bind (inside_evalAll hc s args) fun vs => hc callee vs span

theorem Expr.inside_evalAll (hc : ∀ callee args span, (call callee args span).Inside d
    (call' callee args span)) (s : Scope) : ∀ es : List Expr,
      (evalAll call s es).Inside d (evalAll call' s es)
  | [] => .pure _
  | e :: es => by
    rw [evalAll, evalAll]
    refine .bind (inside_eval hc s e) fun v => ?_
    exact .bind (inside_evalAll hc s es) fun vs => .pure _

end

theorem inside_bindNew (s : Scope) (name : Identifier) (v : Value) :
    (bindNew (σ := σ) s name v).Inside d (bindNew s name v) := by
  rw [bindNew, bindNew]
  cases s.declare? name.name v with
  | none => exact .fail _
  | some t => exact .pure t

theorem inside_bindAll (ps : List (Identifier × Value)) : ∀ s : Scope,
    (bindAll (σ := σ) s ps).Inside d (bindAll s ps) := by
  induction ps with
  | nil => exact fun s => .pure s
  | cons p ps ih => exact fun s => .bind (inside_bindNew s p.1 p.2) ih

/-- Statements end with the return of their function. -/
theorem follows_runBody (hc : ∀ callee args span, (call callee args span).Inside d
    (call' callee args span)) (function : String) (body : List Stmt) : ∀ s : Scope,
      (runBody call function s body).Follows (UpToReturn function d) (Unfinished d)
        (runBody call' function s body) := by
  have hreturn : ∀ (v : Value) (e : Event), Closes function v e →
      (Run.tell e >>= fun _ => pure v : Run σ Value).Follows (UpToReturn function d) (Unfinished d)
        (Run.tell e >>= fun _ => pure v) :=
    fun v e he _ _ => .ok ⟨[], e, rfl, .nil, he⟩
  have happend : ∀ v es es', Trace.Inside d es → UpToReturn function d v es' →
      UpToReturn function d v (es ++ es') := fun _ _ _ => UpToReturn.append
  induction body with
  | nil => exact fun s => hreturn .void _ (.inr ⟨rfl, rfl⟩)
  | cons stmt rest ih =>
    intro s
    cases stmt with
    | declaration name value span =>
      rw [runBody, runBody]
      refine .bind (Expr.inside_eval hc s value) (fun v => ?_) happend
      refine .bind (.tell (.declare .nil)) (fun _ => ?_) happend
      exact .bind (inside_bindNew s name v) ih happend
    | expression value span =>
      rw [runBody, runBody]
      exact .bind (Expr.inside_eval hc s value) (fun _ => ih s) happend
    | result value span =>
      rw [runBody, runBody]
      exact .bind (Expr.inside_eval hc s value) (fun v => hreturn v _ (.inl rfl)) happend

/-- A call that is entered tells its start, and is active until it returns. -/
theorem follows_within {f : ScriptFunction} {m : Run σ Value} {m' : Run (Framed σ) Value}
    (hm : m.Follows (UpToReturn f.name.name d) (Unfinished d) m') :
    (Run.tell (.invoke f.name.name d) >>= fun _ => m).Follows (IsCall f.name.name d)
      (CallFails f d) (Run.within f (Run.tell (.invoke f.name.name d) >>= fun _ => m')) := by
  intro h frames
  have hbody := hm h (frames ++ [f])
  rw [Run.within, Run.tell_bind, Run.tell_bind]
  generalize m h = o, m' (h, frames ++ [f]) = o' at hbody ⊢
  cases hbody with
  | ok hs =>
    simp only [List.dropLast_concat]
    exact .ok ⟨_, rfl, hs⟩
  | error hu =>
    simp only [List.append_assoc, List.singleton_append]
    exact .error (.inside hu)

theorem checkArity_bind (name : String) (expected actual : Nat) (span : Span)
    (f : Unit → Run σ α) :
    (checkArity name expected actual span >>= f) =
      if expected = actual then f () else Run.fail (.arityMismatch name expected actual span) := by
  rw [checkArity]
  split <;> rfl

end

namespace Interpreter

variable (it : Interpreter σ)

/-- **Frames change nothing, and events go with them**, in calls with any number of calls around
them. -/
theorem follows_framedInvoke (budget : Nat) : ∀ {d : Nat} (f : ScriptFunction) (args : List Value)
    (span : Span), d + budget = it.config.maxCallDepth.toNat →
      (it.invoke budget f args span).Follows (IsCall f.name.name (d + 1)) (CallFails f (d + 1))
        (it.framedInvoke budget f args span) := by
  induction budget with
  | zero =>
    intro d f args span _
    rw [invoke_zero, framedInvoke, checkArity_bind, checkArity_bind]
    split <;> exact .fail .before
  | succ budget ih =>
    intro d f args span hd
    rw [invoke_succ, enter, framedInvoke, checkArity_bind, checkArity_bind,
      show it.config.maxCallDepth.toNat - budget = d + 1 by omega]
    split
    · refine follows_within ?_
      refine .bind (inside_bindAll _ ∅) (fun s => ?_) fun _ _ _ => UpToReturn.append
      refine follows_runBody (fun callee args span => ?_) f.name.name f.body s
      rw [callAt]
      cases it.program.get? callee.name with
      | none => exact .fail _
      | some c =>
        cases c with
        | script g =>
          intro h frames
          exact (ih g args span (by omega) h frames).mono (fun _ _ => IsCall.inside)
            fun _ _ => CallFails.unfinished
        | native i => exact .callNative it.natives i args span
    · exact .fail .before

end Interpreter

/-! ### Whole runs -/

/-- How the events of a call of a function fit together with the functions that are active when it
ends. -/
structure Outcome.Bracketed (f : ScriptFunction) (o : Outcome σ Value)
    (active : List ScriptFunction) : Prop where
  /-- A call that ends with a value has told a word, which shows this value at its end, and no
  function is active any more. -/
  word {v : Value} (hv : o.result = .ok v) : IsCall f.name.name 1 v o.events ∧ active = []
  /-- A call that fails has told the beginning of a word. -/
  beginning {e : RuntimeError} (he : o.result = .error e) :
    ∃ v word, IsCall f.name.name 1 v word ∧ o.events <+: word
  /-- The open calls are those of the active functions, at depths counted from one. -/
  openCalls : openCalls o.events = (active.zipIdx 1).map fun (g, depth) => (g.name.name, depth)
  /-- A return names the innermost call that is open in front of it. -/
  innermost {before after : List Event} {e : Event} {function : String}
    (hs : o.events = before ++ e :: after) (he : e.returning? = some function) :
    (Scriptlet.openCalls before).getLast?.map Prod.fst = some function

/-- A run with frames tells which functions are active, and its events fit together with them. -/
theorem Run.Follows.brackets {f : ScriptFunction} {m : Run σ Value} {m' : Run (Framed σ) Value}
    (hm : m.Follows (IsCall f.name.name 1) (CallFails f 1) m') (h : σ) :
    ∃ active, m' (h, []) = ⟨(m h).result, ((m h).host, active), (m h).events⟩ ∧
      (m h).Bracketed f active := by
  have ho := hm h []
  generalize m h = o, m' (h, []) = o' at ho ⊢
  cases ho with
  | @ok v _ es hs =>
    have hi : Trace.Inside 0 es := hs.inside
    refine ⟨[], rfl, ?_, nofun, hi.track [], fun {before after e _} hsplit he => ?_⟩
    · rintro _ ⟨⟩
      exact ⟨hs, rfl⟩
    · obtain rfl : es = before ++ e :: after := hsplit
      exact (hi.namesInnermost []).of_split he
  | @error _ _ es active hf =>
    have hu : Unfinished 0 active es := hf.unfinished
    refine ⟨active, rfl, nofun, fun _ => hf.exists_isCall, hu.openCalls,
      fun {before after e _} hsplit he => ?_⟩
    obtain rfl : es = before ++ e :: after := hsplit
    exact (hu.namesInnermost []).of_split he

namespace Interpreter

/-- **Events are bracketed.** Take a function of the script that is called from outside, by its name
or as the entry point. A call with frames gives the result of the call, does the same to the host
and tells the same, and what it finds to be active is what the events leave open: if the call ends
with a value, it has told a word of calls that shows this value at its end, and if it fails, it has
told the beginning of such a word. -/
theorem bracketed (it : Interpreter σ) (h : σ) :
    (∀ name f args, it.program.get? name = some (.script f) →
      ∃ active,
        it.framedCall name args (h, []) = ⟨(it.call name args h).result,
          ((it.call name args h).host, active), (it.call name args h).events⟩ ∧
        (it.call name args h).Bracketed f active) ∧
    ∀ f, it.program.get? it.config.entryPoint = some (.script f) →
      ∃ active,
        it.framedRun (h, []) = ⟨(it.run h).result, ((it.run h).host, active), (it.run h).events⟩ ∧
        (it.run h).Bracketed f active := by
  have hinvoke := fun f args => it.follows_framedInvoke it.config.maxCallDepth.toNat (d := 0) f args
    f.name.span (Nat.zero_add _)
  constructor
  · intro name f args hf
    rw [call, framedCall, hf]
    exact (hinvoke f args).brackets h
  · intro f hf
    rw [run, framedRun, hf]
    refine Run.Follows.brackets ?_ h
    show Run.Follows _ _ (if _ then _ else _) (if _ then _ else _)
    split
    · exact hinvoke f []
    · exact .fail .before

/-- The small script calls `twice` inside `main`, and `twice` calls the host. If the host fails,
then both calls stay open. -/
theorem bracketed_small :
    let failing : Registry Unit := .single "host" "get" ⟨["v"], fun _ h => (.error "no", h)⟩
    let it : Interpreter Unit := ⟨.small, failing, default⟩
    ∃ main twice, it.program.get? "main" = some (.script main) ∧
      it.program.get? "twice" = some (.script twice) ∧
      (it.framedRun ((), [])).host = ((), [main, twice]) ∧
      (it.run ()).Bracketed main [main, twice] ∧
      openCalls (it.run ()).events = [("main", 1), ("twice", 2)] ∧
      (it.framedCall "twice" [.string "a"] ((), [])).host = ((), [twice]) ∧
      (it.call "twice" [.string "a"] ()).Bracketed twice [twice] := by
  intro failing it
  obtain ⟨active, hrun, hb⟩ := (it.bracketed ()).2 _ rfl
  obtain ⟨active', hcall, hb'⟩ := (it.bracketed ()).1 "twice" _ [.string "a"] rfl
  obtain rfl := congrArg (fun o => o.host.2) hrun
  obtain rfl := congrArg (fun o => o.host.2) hcall
  exact ⟨_, _, rfl, rfl, rfl, hb, rfl, rfl, hb'⟩

end Interpreter

end Scriptlet
