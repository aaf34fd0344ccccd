import Scriptlet.Proofs.Run.Invoked
import Scriptlet.Proofs.Run.Names

/-!
# Scopes are static

A static check decides whether variables can go wrong. One induction along a run gives both
directions: a function whose live statements were all run has passed the check, and an error about a
variable comes from a function that has not. The errors are therefore followed together with the
values, by `Run.Ends`. A call inside a function is only known by what it shows of the callee,
`Caller.Shows`.

## Main definitions

* `Expr.used` — the variables that an expression uses
* `ScriptFunction.WellScoped` — the static check of a function, and `KeepsScope`, which computes it
* `Run.FollowsScopes` — what the check of the functions that are reached says of a run

## Main results

* `Interpreter.ends_invoke_scope` — a call shows which functions pass the check
* `Interpreter.scoping_static` — scopes are static, and the check decides whether variables go wrong
-/

namespace Scriptlet

variable {σ α β : Type}

/-! ### The static check -/

namespace Expr

mutual

/-- The variables that an expression uses. -/
def used : Expr → List String
  | identifier name _ => [name]
  | binary _ lhs _ _ rhs _ => lhs.used ++ rhs.used
  | call _ args _ => usedAll args
  | number _ _ | bool _ _ | string _ _ => []

/-- The variables that expressions use. -/
def usedAll : List Expr → List String
  | [] => []
  | e :: es => e.used ++ usedAll es

end

end Expr

namespace Stmt

/-- Whether a statement ends the call. -/
def returns : Stmt → Bool
  | result _ _ => true
  | declaration _ _ _ | expression _ _ => false

/-- A statement uses bound names only, and declares none of them again. -/
def FitsIn (stmt : Stmt) (bound : List String) : Prop :=
  stmt.value.used ⊆ bound ∧ ∀ name, stmt.declares? = some name → name ∉ bound

end Stmt

namespace ScriptFunction

/-- No statement in front of the `i`-th one ends the call. -/
def LiveAt (f : ScriptFunction) (i : Nat) : Prop := ∀ stmt ∈ f.body.take i, stmt.returns = false

/-- The static check of a function: its parameters are distinct, live statements use only parameters
and what is declared in front of them, and they declare none of these again. -/
structure WellScoped (f : ScriptFunction) : Prop where
  params_nodup : f.paramNames.Nodup
  uses_bound : ∀ (i : Nat) (stmt : Stmt), f.body[i]? = some stmt → f.LiveAt i →
    stmt.value.used ⊆ f.namesBefore i
  declares_fresh : ∀ (i : Nat) (name : Identifier) (value : Expr) (span : Span),
    f.body[i]? = some (.declaration name value span) → f.LiveAt i →
      name.name ∉ f.namesBefore i

end ScriptFunction

/-- The statements up to the first `return` fit in, if these names are bound before. -/
def KeepsScope (bound : List String) : List Stmt → Prop
  | [] => True
  | stmt :: rest =>
    stmt.FitsIn bound ∧ (stmt.returns = false → KeepsScope (bound ++ stmt.declares?.toList) rest)

theorem keepsScope_iff {bound : List String} {body : List Stmt} :
    KeepsScope bound body ↔ ∀ (i : Nat) (stmt : Stmt), body[i]? = some stmt →
      (∀ s ∈ body.take i, s.returns = false) →
        stmt.FitsIn (bound ++ declaredNames (body.take i)) := by
  induction body generalizing bound with
  | nil => simp [KeepsScope]
  | cons stmt rest ih =>
    rw [KeepsScope, ih]
    refine Iff.trans (and_congr ?_ ?_) Nat.and_forall_add_one
    · simp [declaredNames]
    · simp only [List.getElem?_cons_succ, List.take_succ_cons, List.forall_mem_cons,
        declaredNames_cons, List.append_assoc]
      exact ⟨fun h i s hs hlive => h hlive.1 i s hs hlive.2,
        fun h hstmt i s hs hlive => h i s hs ⟨hstmt, hlive⟩⟩

/-- The static check, one statement after the other. -/
theorem ScriptFunction.wellScoped_iff {f : ScriptFunction} :
    f.WellScoped ↔ f.paramNames.Nodup ∧ KeepsScope f.paramNames f.body := by
  rw [keepsScope_iff]
  constructor
  · rintro ⟨hparams, huses, hfresh⟩
    refine ⟨hparams, fun i stmt hstmt hlive => ⟨huses i stmt hstmt hlive, fun name hname => ?_⟩⟩
    cases stmt with
    | result | expression => cases hname
    | declaration n value span =>
      cases hname
      exact hfresh i n value span hstmt hlive
  · rintro ⟨hparams, hfits⟩
    exact ⟨hparams, fun i stmt hstmt hlive => (hfits i stmt hstmt hlive).1,
      fun i name value span hstmt hlive => (hfits i _ hstmt hlive).2 _ rfl⟩

/-! ### The check and the errors about variables -/

/-- Whether an error is about a variable. -/
def RuntimeError.isOfScope : RuntimeError → Bool
  | duplicateVariable .. | undeclaredVariable .. => true
  | _ => false

/-- There are errors about variables only with a reason `B`. -/
def ScopeErrors (B : Prop) (e : RuntimeError) : Prop := e.isOfScope → B

theorem scopeErrors_of_eq_false {B : Prop} {e : RuntimeError} (h : e.isOfScope = false) :
    ScopeErrors B e :=
  fun he => absurd (h.symm.trans he) Bool.false_ne_true

theorem CallError.isOfScope {name : String} {args : Nat} {span : Span} {e : RuntimeError}
    (h : CallError name args span e) : e.isOfScope = false := by
  cases h <;> rfl

/-- Calls of a name show `K` of it when they end with a value, and fail because of a variable only
with a reason `B`. -/
def Caller.Shows (call : Caller σ) (K : Identifier → Prop) (B : Prop) (c : Identifier) : Prop :=
  ∀ args span, (call c args span).Ends (fun _ => K c) (ScopeErrors B)

section

variable {call : Caller σ} {K : Identifier → Prop} {B : Prop} {s : Scope} {xs : List String}

mutual

/-- An expression that has a value uses bound names, and one that uses bound names does not fail
because of a variable. -/
theorem Expr.ends_eval_scope (hs : s.Binds xs) : ∀ e : Expr,
    (∀ c ∈ e.callees, call.Shows K B c) → (¬ e.used ⊆ xs → B) →
      (e.eval call s).Ends (fun _ => e.used ⊆ xs ∧ ∀ c ∈ e.callees, K c) (ScopeErrors B)
  | .number _ _, _, _ | .bool _ _, _, _ | .string _ _, _, _ =>
    .of_pure ⟨List.nil_subset _, List.forall_mem_nil _⟩
  | .identifier name span, _, hB => by
    rw [eval]
    cases hx : s.get? name with
    | none =>
      refine .of_fail fun _ => hB fun hsub => ?_
      have hbound := (hs name).2 (hsub List.mem_cons_self)
      rw [hx] at hbound
      cases hbound
    | some v =>
      have hmem : name ∈ xs := (hs name).1 (by rw [hx]; rfl)
      exact .of_pure ⟨List.cons_subset.2 ⟨hmem, List.nil_subset _⟩, List.forall_mem_nil _⟩
  | .binary _ lhs op opSpan rhs _, hc, hB => by
    rw [eval]
    rw [used, List.append_subset] at hB ⊢
    rw [callees, List.forall_mem_append] at hc ⊢
    refine .bind (ends_eval_scope hs lhs hc.1 fun hn => hB fun h => hn h.1) fun a ha =>
      .bind (ends_eval_scope hs rhs hc.2 fun hn => hB fun h => hn h.2) fun b hb => ?_
    cases hv : Value.applyAt op a b opSpan with
    | ok v => exact .of_pure ⟨⟨ha.1, hb.1⟩, ha.2, hb.2⟩
    | error e =>
      obtain rfl := Value.error_of_applyAt hv
      exact .of_fail (scopeErrors_of_eq_false rfl)
  | .call callee args span, hc, hB => by
    rw [eval]
    rw [used] at hB ⊢
    rw [callees, List.forall_mem_append] at hc ⊢
    refine .bind (ends_evalAll_scope hs args hc.1 hB) fun vs hvs =>
      (hc.2 callee (List.mem_singleton_self _) vs span).imp fun v hv => ⟨hvs.1, hvs.2, ?_⟩
    exact List.forall_mem_singleton.2 hv

theorem Expr.ends_evalAll_scope (hs : s.Binds xs) : ∀ es : List Expr,
    (∀ c ∈ calleesAll es, call.Shows K B c) → (¬ usedAll es ⊆ xs → B) →
      (evalAll call s es).Ends (fun _ => usedAll es ⊆ xs ∧ ∀ c ∈ calleesAll es, K c)
        (ScopeErrors B)
  | [], _, _ => .of_pure ⟨List.nil_subset _, List.forall_mem_nil _⟩
  | e :: es, hc, hB => by
    rw [evalAll]
    rw [usedAll, List.append_subset] at hB ⊢
    rw [calleesAll, List.forall_mem_append] at hc ⊢
    refine .bind (ends_eval_scope hs e hc.1 fun hn => hB fun h => hn h.1) fun v hv =>
      .bind (ends_evalAll_scope hs es hc.2 fun hn => hB fun h => hn h.2) fun vs hvs => ?_
    exact .of_pure ⟨⟨hv.1, hvs.1⟩, hv.2, hvs.2⟩

end

/-- Statements that were run to their end keep the scope, and those that keep it do not fail because
of a variable. -/
theorem ends_runBody_scope (function : String) :
    ∀ {s : Scope} {xs : List String} (body : List Stmt), s.Binds xs →
      (∀ c ∈ liveCallees body, call.Shows K B c) → (¬ KeepsScope xs body → B) →
        (runBody call function s body).Ends
          (fun _ => KeepsScope xs body ∧ ∀ c ∈ liveCallees body, K c) (ScopeErrors B) := by
  intro s xs body
  induction body generalizing s xs with
  | nil =>
    intro _ _ _
    exact .bind (.of_tell _) fun _ _ => .of_pure ⟨trivial, List.forall_mem_nil _⟩
  | cons stmt rest ih =>
    intro hs hc hB
    rw [KeepsScope] at hB ⊢
    cases stmt with
    | declaration name value span =>
      rw [liveCallees, List.forall_mem_append] at hc ⊢
      have hfresh : (s.get? name.name).isSome → ¬ Stmt.FitsIn (.declaration name value span) xs :=
        fun hbound hfits => hfits.2 name.name rfl ((hs _).1 hbound)
      refine .bind (Expr.ends_eval_scope hs value hc.1 fun hn => hB fun h => hn h.1.1) fun v hv =>
        .bind (.of_tell _) fun _ _ => .bind ((ends_bindNew_scope s name v).mono
          fun e hbound _ => hB fun h => hfresh hbound h.1) fun t ht => ?_
      refine (ih (hs.declare ht) hc.2 fun hn => hB fun h => hn (h.2 rfl)).imp fun _ hrest =>
        ⟨⟨⟨hv.1, ?_⟩, fun _ => hrest.1⟩, hv.2, hrest.2⟩
      rintro _ ⟨⟩
      exact hs.not_mem_of_declare? ht
    | expression value span =>
      rw [liveCallees, List.forall_mem_append] at hc ⊢
      refine .bind (Expr.ends_eval_scope hs value hc.1 fun hn => hB fun h => hn h.1.1) fun v hv =>
        (ih hs hc.2 fun hn => hB fun h => hn ?_).imp fun _ hrest =>
          ⟨⟨⟨hv.1, ?_⟩, fun _ => ?_⟩, hv.2, hrest.2⟩
      · simpa [Stmt.declares?] using h.2 rfl
      · rintro _ ⟨⟩
      · simpa [Stmt.declares?] using hrest.1
    | result value span =>
      refine .bind (Expr.ends_eval_scope hs value hc fun hn => hB fun h => hn h.1.1) fun v hv =>
        .bind (.of_tell _) fun _ _ => .of_pure ⟨⟨⟨hv.1, ?_⟩, ?_⟩, hv.2⟩
      · rintro _ ⟨⟩
      · rintro ⟨⟩

/-- A call that ends with a value has passed the check, and one that passes it does not fail because
of a variable of its own. -/
theorem ends_enter_scope {f : ScriptFunction} (hc : ∀ c ∈ liveCallees f.body, call.Shows K B c)
    (hB : ¬ f.WellScoped → B) (depth : Nat) (args : List Value) (span : Span) :
    (enter call depth f args span).Ends
      (fun _ => f.WellScoped ∧ ∀ c ∈ liveCallees f.body, K c) (ScopeErrors B) := by
  rw [ScriptFunction.wellScoped_iff] at hB ⊢
  rw [enter, checkArity]
  split
  · rename_i harity
    have hbind := @ends_bindAll_scope σ (f.params.zip args) ∅ [] Scope.binds_empty .nil
    rw [map_name_zip harity, List.nil_append] at hbind
    refine .bind (Q := fun _ => True) (.of_pure trivial) fun _ _ => .bind (.of_tell _) fun _ _ =>
      .bind (hbind.mono fun e hn _ => hB fun h => hn h.1) fun s hs => ?_
    exact (ends_runBody_scope f.name.name f.body hs.2.1 hc fun hn => hB fun h => hn h.2).imp
      fun _ h => ⟨⟨hs.1, h.1⟩, h.2⟩
  · exact .bind (Q := fun _ => False) (.of_fail (scopeErrors_of_eq_false rfl)) fun _ => False.elim

end

namespace Interpreter

variable (it : Interpreter σ)

theorem ends_callNative_scope (B : Prop) (i : Import) (args : List Value) (span : Span) :
    (callNative it.natives i args span).Ends (fun _ => True) (ScopeErrors B) :=
  (ends_callNative it.natives i args span).mono fun _ he => scopeErrors_of_eq_false he.isOfScope

/-- **A call shows which functions pass the check.** If it ends with a value, then all functions
that it reaches do. If it fails because of a variable, then one of them does not. -/
theorem ends_invoke_scope (budget : Nat) : ∀ (f : ScriptFunction) (args : List Value) (span : Span),
    (it.invoke budget f args span).Ends
      (fun _ => ∀ g, Relation.ReflTransGen it.program.Calls f g → g.WellScoped)
      (ScopeErrors (∃ g, Relation.ReflTransGen it.program.Calls f g ∧ ¬ g.WellScoped)) := by
  induction budget with
  | zero =>
    intro f args span
    rw [invoke_zero]
    refine .bind ((ends_checkArity _ _ _ _).mono ?_) fun _ _ =>
      .of_fail (scopeErrors_of_eq_false rfl)
    rintro _ ⟨-, rfl⟩
    exact scopeErrors_of_eq_false rfl
  | succ budget ih =>
    intro f args span
    -- what a call of `c` shows of the function that the name stands for, if it does for one
    let K (c : Identifier) : Prop := ∀ g, it.program.get? c.name = some (.script g) →
      ∀ g', Relation.ReflTransGen it.program.Calls g g' → g'.WellScoped
    have hcalls : ∀ c ∈ liveCallees f.body, (it.callAt budget).Shows K
        (∃ g, Relation.ReflTransGen it.program.Calls f g ∧ ¬ g.WellScoped) c := by
      intro c hc args span
      rw [callAt]
      cases hd : it.program.get? c.name with
      | none => exact .of_fail (scopeErrors_of_eq_false rfl)
      | some d =>
        cases d with
        | native i =>
          refine (it.ends_callNative_scope _ i args span).imp fun _ _ g hg => ?_
          rw [hd] at hg
          cases hg
        | script g =>
          refine ((ih g args span).mono fun e he hscope => ?_).imp fun _ hreach g' hg' => ?_
          · obtain ⟨g', hg', hbad⟩ := he hscope
            exact ⟨g', .head ⟨c, hc, hd⟩ hg', hbad⟩
          · rw [hd] at hg'
            cases hg'
            exact hreach
    rw [invoke_succ]
    refine (ends_enter_scope hcalls (fun hbad => ⟨f, .refl, hbad⟩) _ args span).imp ?_
    rintro _ ⟨hf, hcallees⟩ g hg
    rcases Relation.ReflTransGen.cases_head hg with rfl | ⟨f', ⟨c, hc, hf'⟩, hg⟩
    · exact hf
    · exact hcallees c hc f' hf' g hg

end Interpreter

/-! ### Whole runs -/

/-- The functions of the script that a call of a name can come to. -/
def Program.Reaches (p : Program) (name : String) (g : ScriptFunction) : Prop :=
  ∃ f, p.get? name = some (.script f) ∧ Relation.ReflTransGen p.Calls f g

/-- What the static check of the functions that a name reaches says of a run from that name. -/
structure Run.FollowsScopes (p : Program) (name : String) (m : Run σ Value) : Prop where
  /-- If all functions pass the check, no error is about a variable. -/
  no_error : (∀ g, p.Reaches name g → g.WellScoped) →
    ∀ h e, (m h).result = .error e → e.isOfScope = false
  /-- If the run ends with a value, all functions pass the check. -/
  wellScoped : ∀ h v, (m h).result = .ok v → ∀ g, p.Reaches name g → g.WellScoped
  /-- Functions that are invoked are among those that are reached. -/
  invoked : ∀ h callee depth, .invoke callee depth ∈ (m h).events →
    ∃ g, p.Reaches name g ∧ g.name.name = callee

namespace Run.FollowsScopes

variable {p : Program} {name : String}

theorem of_ends {m : Run σ Value}
    (hends : m.Ends (fun _ => ∀ g, p.Reaches name g → g.WellScoped)
      (ScopeErrors (∃ g, p.Reaches name g ∧ ¬ g.WellScoped)))
    (hstarts : m.Starts fun callee => ∃ g, p.Reaches name g ∧ g.name.name = callee) :
    m.FollowsScopes p name where
  no_error hall h e he := by
    by_contra hscope
    obtain ⟨g, hg, hbad⟩ := (hends h).2 e he (by simpa using hscope)
    exact hbad (hall g hg)
  wellScoped h v hv := (hends h).1 v hv
  invoked := hstarts

theorem of_fail {e : RuntimeError} (he : e.isOfScope = false) :
    (Run.fail e : Run σ Value).FollowsScopes p name :=
  of_ends (.of_fail (scopeErrors_of_eq_false he)) (.of_step (fun _ => rfl) (by simp))

end Run.FollowsScopes

namespace Interpreter

variable (it : Interpreter σ)

theorem invoke_followsScopes {name : String} {f : ScriptFunction}
    (hf : it.program.get? name = some (.script f)) (budget : Nat) (args : List Value)
    (span : Span) : (it.invoke budget f args span).FollowsScopes it.program name := by
  refine .of_ends (((it.ends_invoke_scope budget f args span).mono fun e he hscope => ?_).imp
    fun _ hall g hg => ?_) fun h callee depth hstart => ?_
  · obtain ⟨g, hg, hbad⟩ := he hscope
    exact ⟨g, ⟨f, hf, hg⟩, hbad⟩
  · obtain ⟨f', hf', hg⟩ := hg
    rw [hf] at hf'
    cases hf'
    exact hall g hg
  · obtain ⟨g, hg, hname⟩ := it.starts_invoke budget f args span h callee depth hstart
    exact ⟨g, ⟨f, hf, hg⟩, hname⟩

theorem call_followsScopes (name : String) (args : List Value) :
    (it.call name args).FollowsScopes it.program name := by
  rw [call]
  cases hd : it.program.get? name with
  | none => exact .of_fail rfl
  | some d =>
    cases d with
    | script f => exact it.invoke_followsScopes hd _ args _
    | native i =>
      refine .of_ends ((it.ends_callNative_scope _ i args i.name.span).imp ?_) ?_
      · rintro _ - g ⟨f, hf, -⟩
        rw [hd] at hf
        cases hf
      · exact starting_callNative it.natives _ i i.name.span (Simulation.values_refl args)

theorem run_followsScopes : it.run.FollowsScopes it.program it.config.entryPoint := by
  rw [run]
  cases hd : it.program.get? it.config.entryPoint with
  | none => exact .of_fail rfl
  | some d =>
    cases d with
    | native i => exact .of_fail rfl
    | script f =>
      simp only
      split
      · exact it.invoke_followsScopes hd _ [] _
      · exact .of_fail rfl

/-- **Scopes are static.** Take any call of a script function `f` within the limit, and any number
`i`. The call goes on from its `i`-th statement in the scope that it has reached there, and this
scope binds exactly the parameters of `f` and the names that are declared before, each to the value
that it got first.

So the static check decides whether variables can go wrong, in calls as in runs. If all functions
that are reached pass it, no error is about a variable, whatever the host and the arguments are. If
there is a value in the end, all of them pass it, and so do those that were invoked. -/
theorem scoping_static :
    (∀ (budget : Nat) (f : ScriptFunction) (args : List Value) (span : Span) (i : Nat),
      it.invoke (budget + 1) f args span =
        (it.invokeTo budget f args span i >>= Step.andThen id fun t =>
          runBody (it.callAt budget) f.name.name t (f.body.drop i)) ∧
      ∀ (h : σ) (t : Scope) (k : σ) (es : List Event),
        it.invokeTo budget f args span i h = ⟨.ok (.next t), k, es⟩ →
          t.Binds (f.namesBefore i) ∧
            ∀ x v, t.get? x = some v ↔ it.Bound budget f args span h i x v) ∧
    (∀ (name : String) (args : List Value),
      (it.call name args).FollowsScopes it.program name) ∧
    it.run.FollowsScopes it.program it.config.entryPoint :=
  ⟨fun budget f args span i =>
    ⟨it.invoke_eq_invokeTo budget f args span i, fun _ _ _ _ ho => get?_of_invokeTo ho⟩,
    it.call_followsScopes, it.run_followsScopes⟩

/-- The small script ends with a value, so its functions pass the check. In front of its second
statement, `twice` has bound its parameter and the name that the first one declares. -/
theorem scoping_static_small :
    let it : Interpreter Unit := ⟨.small, .echo, default⟩
    (∃ v, (it.run ()).result = .ok v) ∧ (∀ g, it.program.Reaches "main" g → g.WellScoped) ∧
      ∃ f t es, it.program.get? "twice" = some (.script f) ∧
        it.invokeTo 5 f [.string "a"] default 1 () = ⟨.ok (.next t), (), es⟩ ∧
        f.namesBefore 1 = ["x", "y"] ∧ t.Binds (f.namesBefore 1) := by
  intro it
  obtain ⟨hscopes, -, hrun⟩ := it.scoping_static
  refine ⟨⟨_, rfl⟩, hrun.wellScoped () _ rfl, _, _, _, rfl, rfl, rfl, ?_⟩
  exact ((hscopes 5 _ [.string "a"] default 1).2 () _ _ _ rfl).1

end Interpreter

end Scriptlet
