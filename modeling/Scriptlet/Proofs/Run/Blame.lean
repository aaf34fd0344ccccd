import Scriptlet.Proofs.Expr.Parts
import Scriptlet.Proofs.Grammar.Phrase
import Scriptlet.Proofs.Run.Recording

/-!
# What errors blame

An error of a run comes from one place of the program, and takes its span from there: from a
variable or an operator, from the name of a callee or from a whole call. Where an error of a call
comes from is seen outside the callee only: it blames the call, and not the function that was
called. The only other errors are those of the entry point, which no call of the program stands for.

## Main definitions

* `Run.Ends` — what holds of the values and errors that a run ends with
* `CallError` — the errors that blame a call
* `Expr.Raises`, `ScriptFunction.Raises`, `Program.Raises` — the errors of one node, and of all
* `Interpreter.Raises` — the errors of a run

## Main results

* `Expr.ends_eval` — evaluation fails with an error of a part, or inside a call
* `Interpreter.ends_run` — every error of a run has its place in the program
-/

namespace Scriptlet

variable {σ α β : Type}

/-- Every value that a run ends with is one of `Q`, and every error is one of `E`. -/
def Run.Ends (Q : α → Prop) (E : RuntimeError → Prop) (m : Run σ α) : Prop :=
  ∀ h, (∀ a, (m h).result = .ok a → Q a) ∧ ∀ e, (m h).result = .error e → E e

namespace Run.Ends

variable {Q : α → Prop} {R : β → Prop} {E E' : RuntimeError → Prop}

theorem of_pure {a : α} (h : Q a) : Ends Q E (pure a : Run σ α) := by
  refine fun h₀ => ⟨fun b hb => ?_, fun e he => ?_⟩
  · cases hb
    exact h
  · cases he

theorem of_fail {e : RuntimeError} (h : E e) : Ends Q E (Run.fail e : Run σ α) := by
  refine fun h₀ => ⟨fun b hb => ?_, fun e' he => ?_⟩
  · cases hb
  · cases he
    exact h

theorem of_tell (event : Event) : Ends (fun _ => True) E (Run.tell event : Run σ Unit) := by
  refine fun h₀ => ⟨fun _ _ => trivial, fun e he => ?_⟩
  cases he

theorem mono {m : Run σ α} (hm : m.Ends Q E) (hE : ∀ e, E e → E' e) : m.Ends Q E' :=
  fun h => ⟨(hm h).1, fun e he => hE e ((hm h).2 e he)⟩

theorem bind {m : Run σ α} {f : α → Run σ β} (hm : m.Ends Q E) (hf : ∀ a, Q a → (f a).Ends R E) :
    (m >>= f).Ends R E := by
  intro h
  obtain ⟨hok, herror⟩ := hm h
  rcases ho : m h with ⟨e | a, h₁, es⟩
  · rw [bind_of_error f ho]
    refine ⟨fun b hb => ?_, fun e' he => ?_⟩
    · cases hb
    · cases he
      exact herror e (by rw [ho])
  · rw [bind_of_ok f ho]
    exact hf a (hok a (by rw [ho])) h₁

end Run.Ends

/-! ### Errors and their places -/

/-- The errors that blame a call of a name on so many arguments. -/
inductive CallError (name : String) (args : Nat) (span : Span) : RuntimeError → Prop
  | arity (expected : Nat) : CallError name args span (.arityMismatch name expected args span)
  | depth (limit : Nat) : CallError name args span (.callDepthExceeded name limit span)
  | module (module : String) : CallError name args span (.unknownModule module name span)
  | function (module : String) : CallError name args span (.unknownNativeFunction module name span)
  | native (module message : String) : CallError name args span (.native module name message span)

/-- The errors that an expression can end with once its parts have their values, but for those from
inside the function that it calls. -/
inductive Expr.Raises : Expr → RuntimeError → Prop
  | identifier {name span} : Raises (.identifier name span) (.undeclaredVariable name span)
  | binary {level lhs op opSpan rhs span} (a b : Value.Kind) :
      Raises (.binary level lhs op opSpan rhs span) (.typeMismatch op a b opSpan)
  | unknown {callee args span} :
      Raises (.call callee args span) (.unknownFunction callee.name callee.span)
  | call {callee args span e} (h : CallError callee.name args.length span e) :
      Raises (.call callee args span) e

/-- The errors that have their place in a function. -/
inductive ScriptFunction.Raises (f : ScriptFunction) : RuntimeError → Prop
  | parameter {p} (hp : p ∈ f.params) : f.Raises (.duplicateVariable p.name p.span)
  | declaration {name value span} (hs : .declaration name value span ∈ f.body) :
      f.Raises (.duplicateVariable name.name name.span)
  | expression {s d e} (hs : s ∈ f.body) (hd : d ∈ s.value.parts) (h : d.Raises e) : f.Raises e

namespace Program

/-- The errors that have their place in a function of the program. -/
def Raises (p : Program) (e : RuntimeError) : Prop :=
  ∃ name f, p.get? name = some (.script f) ∧ f.Raises e

/-- Every definition stands under its own name. -/
def KeepsNames (p : Program) : Prop := ∀ name d, p.get? name = some d → d.name.name = name

end Program

/-! ### Evaluation -/

section

variable {call : Caller σ} {inner : RuntimeError → Prop}

/-- A call fails with an error that blames it or the name of its callee, or else inside the callee,
with an error of `inner`. -/
def Caller.Blames (call : Caller σ) (inner : RuntimeError → Prop) : Prop :=
  ∀ callee args span, (call callee args span).Ends (fun _ => True) fun e =>
    e = .unknownFunction callee.name callee.span ∨
      CallError callee.name args.length span e ∨ inner e

/-- The errors of some expressions, or from inside calls. -/
def RaisedBy (inner : RuntimeError → Prop) (ds : List Expr) (e : RuntimeError) : Prop :=
  (∃ d ∈ ds, d.Raises e) ∨ inner e

theorem Run.Ends.widen {Q : α → Prop} {m : Run σ α} {ds ds' : List Expr}
    (hm : m.Ends Q (RaisedBy inner ds)) (h : ds ⊆ ds') : m.Ends Q (RaisedBy inner ds') :=
  hm.mono fun _ => Or.imp_left fun ⟨d, hd, hr⟩ => ⟨d, h hd, hr⟩

mutual

/-- **Evaluation fails with an error of a part**, or inside a call. -/
theorem Expr.ends_eval (hc : call.Blames inner) (s : Scope) : ∀ e : Expr,
    (e.eval call s).Ends (fun _ => True) (RaisedBy inner e.parts)
  | .number _ _ | .bool _ _ | .string _ _ => .of_pure trivial
  | .identifier name span => by
    rw [eval]
    cases s.get? name with
    | some v => exact .of_pure trivial
    | none => exact .of_fail (.inl ⟨_, self_mem_parts _, .identifier⟩)
  | .binary level lhs op opSpan rhs span => by
    have hself := self_mem_parts (.binary level lhs op opSpan rhs span)
    have hlhs : lhs.parts ⊆ (Expr.binary level lhs op opSpan rhs span).parts :=
      List.subset_cons_of_subset _ (List.subset_append_left _ _)
    have hrhs : rhs.parts ⊆ (Expr.binary level lhs op opSpan rhs span).parts :=
      List.subset_cons_of_subset _ (List.subset_append_right _ _)
    rw [eval]
    refine .bind ((ends_eval hc s lhs).widen hlhs) fun a _ =>
      .bind ((ends_eval hc s rhs).widen hrhs) fun b _ => ?_
    cases hv : Value.applyAt op a b opSpan with
    | ok v => exact .of_pure trivial
    | error err =>
      obtain rfl := Value.error_of_applyAt hv
      exact .of_fail (.inl ⟨_, hself, .binary _ _⟩)
  | .call callee args span => by
    have hself := self_mem_parts (.call callee args span)
    have hargs : partsAll args ⊆ (Expr.call callee args span).parts := List.subset_cons_self _ _
    rw [eval]
    refine .bind ((ends_evalAll hc s args).widen hargs) fun vs hvs =>
      (hc callee vs span).mono fun err => ?_
    rintro (rfl | herr | hin)
    · exact .inl ⟨_, hself, .unknown⟩
    · exact .inl ⟨_, hself, .call (hvs ▸ herr)⟩
    · exact .inr hin

theorem Expr.ends_evalAll (hc : call.Blames inner) (s : Scope) : ∀ es : List Expr,
    (evalAll call s es).Ends (fun vs => vs.length = es.length) (RaisedBy inner (partsAll es))
  | [] => .of_pure rfl
  | e :: es => by
    rw [evalAll, partsAll]
    refine .bind ((ends_eval hc s e).widen (List.subset_append_left _ _)) fun v _ =>
      .bind ((ends_evalAll hc s es).widen (List.subset_append_right _ _)) fun vs hvs => ?_
    exact .of_pure (congrArg (· + 1) hvs)

end

/-! ### Functions -/

theorem ends_bindNew (s : Scope) (name : Identifier) (v : Value) :
    (bindNew s name v : Run σ Scope).Ends (fun _ => True) fun e =>
      e = .duplicateVariable name.name name.span := by
  rw [bindNew]
  cases s.declare? name.name v with
  | some t => exact .of_pure trivial
  | none => exact .of_fail rfl

theorem ends_bindAll {f : ScriptFunction} : ∀ {s : Scope} {bindings : List (Identifier × Value)},
    (∀ b ∈ bindings, b.1 ∈ f.params) →
      (bindAll s bindings : Run σ Scope).Ends (fun _ => True) f.Raises := by
  intro s bindings
  induction bindings generalizing s with
  | nil =>
    intro _
    exact .of_pure trivial
  | cons b bindings ih =>
    intro hp
    obtain ⟨hb, hp⟩ := List.forall_mem_cons.1 hp
    refine .bind ((ends_bindNew s b.1 b.2).mono ?_) fun s _ => ih hp
    rintro _ rfl
    exact .parameter hb

theorem ends_runBody (hc : call.Blames inner) {f : ScriptFunction} (function : String) :
    ∀ {s : Scope} {body : List Stmt}, body ⊆ f.body →
      (runBody call function s body).Ends (fun _ => True) fun e => f.Raises e ∨ inner e := by
  intro s body
  induction body generalizing s with
  | nil =>
    intro _
    exact .bind (.of_tell _) fun _ _ => .of_pure trivial
  | cons stmt rest ih =>
    intro hsub
    obtain ⟨hstmt, hrest⟩ := List.cons_subset.1 hsub
    have heval := (Expr.ends_eval hc s stmt.value).mono fun e =>
      Or.imp_left fun ⟨d, hd, hr⟩ => ScriptFunction.Raises.expression hstmt hd hr
    cases stmt with
    | declaration name value span =>
      refine .bind heval fun v _ => .bind (.of_tell _) fun _ _ =>
        .bind ((ends_bindNew s name v).mono ?_) fun s _ => ih hrest
      rintro _ rfl
      exact .inl (.declaration hstmt)
    | result value span =>
      exact .bind heval fun v _ => .bind (.of_tell _) fun _ _ => .of_pure trivial
    | expression value span => exact .bind heval fun _ _ => ih hrest

theorem ends_checkArity (name : String) (expected actual : Nat) (span : Span) :
    (checkArity name expected actual span : Run σ Unit).Ends (fun _ => True) fun e =>
      expected ≠ actual ∧ e = .arityMismatch name expected actual span := by
  rw [checkArity]
  split
  · exact .of_pure trivial
  · rename_i h
    exact .of_fail ⟨h, rfl⟩

/-- A call that is let in fails because of its number of arguments, or with an error that has its
place in the function. -/
theorem ends_enter (hc : call.Blames inner) (depth : Nat) (f : ScriptFunction) (args : List Value)
    (span : Span) :
    (enter call depth f args span).Ends (fun _ => True) fun e =>
      (f.arity ≠ args.length ∧ e = .arityMismatch f.name.name f.arity args.length span) ∨
        f.Raises e ∨ inner e := by
  have hparams : ∀ b ∈ f.params.zip args, b.1 ∈ f.params := fun b hb => (List.of_mem_zip hb).1
  rw [enter]
  refine .bind ((ends_checkArity _ _ _ _).mono fun e => .inl) fun _ _ => ?_
  refine .bind (.of_tell _) fun _ _ => ?_
  refine .bind ((ends_bindAll hparams).mono fun e he => .inr (.inl he)) fun s _ => ?_
  exact (ends_runBody hc f.name.name (List.Subset.refl _)).mono fun e => .inr

end

/-! ### Calls -/

theorem ends_callNative (natives : Registry σ) (i : Import) (args : List Value) (span : Span) :
    (callNative natives i args span).Ends (fun _ => True)
      (CallError i.name.name args.length span) := by
  rw [callNative]
  cases natives.module? i.module with
  | none => exact .of_fail (.module _)
  | some m =>
    cases hf : m.get? i.name.name with
    | none =>
      simp only [hf]
      exact .of_fail (.function _)
    | some f =>
      simp only [hf]
      refine .bind ((ends_checkArity _ _ _ _).mono ?_) fun _ _ => .bind (.of_tell _) fun _ _ h =>
        ⟨fun _ _ => trivial, fun e he => ?_⟩
      · rintro _ ⟨-, rfl⟩
        exact .arity _
      · obtain ⟨message, rfl⟩ := Run.error_of_onHost he
        exact .native _ message

namespace Interpreter

variable (it : Interpreter σ)

/-- Calls of functions blame the call, or have an error with its place in the program. -/
def InvokesBlame (budget : Nat) : Prop :=
  ∀ (name : String) (f : ScriptFunction) (args : List Value) (span : Span),
    it.program.get? name = some (.script f) →
      (it.invoke budget f args span).Ends (fun _ => True) fun e =>
        CallError f.name.name args.length span e ∨ it.program.Raises e

variable {it}

theorem callAt_blames (hn : it.program.KeepsNames) {budget : Nat} (hi : it.InvokesBlame budget) :
    (it.callAt budget).Blames it.program.Raises := by
  intro callee args span
  rw [callAt]
  cases hd : it.program.get? callee.name with
  | none => exact .of_fail (.inl rfl)
  | some d =>
    have hname := hn callee.name d hd
    cases d with
    | script f =>
      rw [← hname] at hd ⊢
      exact (hi f.name.name f args span hd).mono fun e => .inr
    | native i =>
      rw [← hname]
      exact (ends_callNative it.natives i args span).mono fun e he => .inr (.inl he)

theorem invokesBlame (hn : it.program.KeepsNames) (budget : Nat) : it.InvokesBlame budget := by
  induction budget with
  | zero =>
    intro name f args span _
    rw [invoke_zero]
    refine .bind ((ends_checkArity _ _ _ _).mono ?_) fun _ _ => .of_fail (.inl (.depth _))
    rintro _ ⟨-, rfl⟩
    exact .inl (.arity _)
  | succ budget ih =>
    intro name f args span hf
    rw [invoke_succ]
    refine (ends_enter (callAt_blames hn ih) _ f args span).mono ?_
    rintro _ (⟨-, rfl⟩ | he | he)
    · exact .inl (.arity _)
    · exact .inr ⟨name, f, hf, he⟩
    · exact .inr he

/-! ### Runs -/

/-- The errors of a run: the entry point is missing or no function to start with, no call is allowed
at all, or the error has its place in the program. -/
inductive Raises (it : Interpreter σ) : RuntimeError → Prop
  | missing : it.Raises (.missingEntryPoint it.config.entryPoint)
  | invalid {d} (hd : it.program.get? it.config.entryPoint = some d) :
      it.Raises (.invalidEntryPoint it.config.entryPoint d.name.span)
  | depth {f} (hf : it.program.get? it.config.entryPoint = some (.script f))
      (hmax : it.config.maxCallDepth = 0) :
      it.Raises (.callDepthExceeded f.name.name 0 f.name.span)
  | program {e} (hmax : it.config.maxCallDepth ≠ 0) (he : it.program.Raises e) : it.Raises e

/-- **Every error of a run has its place in the program**, if it is not about the entry point. -/
theorem ends_run (hn : it.program.KeepsNames) : it.run.Ends (fun _ => True) it.Raises := by
  rw [run]
  cases hd : it.program.get? it.config.entryPoint with
  | none => exact .of_fail .missing
  | some d =>
    cases d with
    | native i => exact .of_fail (.invalid hd)
    | script f =>
      simp only
      split
      · rename_i hparams
        have harity : f.arity = ([] : List Value).length :=
          congrArg List.length (List.isEmpty_iff.1 hparams)
        cases hmax : it.config.maxCallDepth.toNat with
        | zero =>
          have hzero : it.config.maxCallDepth = 0 := UInt64.toNat_inj.1 hmax
          rw [invoke_zero, hmax]
          refine .bind ((ends_checkArity _ _ _ _).mono ?_) fun _ _ => .of_fail (.depth hd hzero)
          rintro _ ⟨hne, -⟩
          exact absurd harity hne
        | succ budget =>
          have hpos : it.config.maxCallDepth ≠ 0 := by
            rintro hzero
            rw [hzero] at hmax
            cases hmax
          rw [invoke_succ]
          refine (ends_enter (callAt_blames hn (invokesBlame hn budget)) _ f [] _).mono ?_
          rintro _ (⟨hne, -⟩ | he | he)
          · exact absurd harity hne
          · exact .program hpos ⟨_, f, hd, he⟩
          · exact .program hpos he
      · exact .of_fail (.invalid hd)

end Interpreter

end Scriptlet
