import Mathlib
import Scriptlet.Proofs.Run.Recording

/-!
# Dead code

Only some of a program can be run. What stands behind the first `return` of a function is never
reached, and neither is a definition whose name no function calls that can itself be reached. A run
depends on nothing else: two programs that have the same live parts behave the same, in their
results and in all that they do on the way.

Which names can be reached is read off the text, and a run may well stop before it gets to them. It
is enough to follow them in one of the two programs, as the other one agrees on each of them.

## Main definitions

* `liveStatements` — the statements up to the first `return`
* `Program.LooksUp` — the names that calls of a name can come to
* `SameLive` — what a name stands for is the same but for dead statements
* `Program.trimmed` — a program without dead statements, and with some of its names only

## Main results

* `enter_congr` — a call depends on the calls of its live callees only
* `Interpreter.dead_code` — dead code plays no part in calls and runs
-/

namespace Scriptlet

variable {σ α β : Type}

/-! ### Live statements -/

/-- The statements up to the first `return`. -/
def liveStatements : List Stmt → List Stmt
  | [] => []
  | .result value span :: _ => [.result value span]
  | stmt :: rest => stmt :: liveStatements rest

/-- What stands behind the first `return` is not run. -/
theorem runBody_liveStatements (call : Caller σ) (function : String) (s : Scope)
    (body : List Stmt) :
    runBody call function s (liveStatements body) = runBody call function s body := by
  induction body generalizing s with
  | nil => rfl
  | cons stmt rest ih =>
    cases stmt with
    | declaration name value span => simp only [liveStatements, runBody, ih]
    | expression value span => simp only [liveStatements, runBody, ih]
    | result value span => rfl

theorem liveStatements_idem (body : List Stmt) :
    liveStatements (liveStatements body) = liveStatements body := by
  induction body with
  | nil => rfl
  | cons stmt rest ih =>
    cases stmt with
    | declaration name value span => simp only [liveStatements, ih]
    | expression value span => simp only [liveStatements, ih]
    | result value span => rfl

/-- Functions that differ in dead statements and in their spans only. -/
structure ScriptFunction.SameLive (f g : ScriptFunction) : Prop where
  name : f.name = g.name
  params : f.params = g.params
  body : liveStatements f.body = liveStatements g.body

/-- What a name stands for in two programs, if anything, is the same but for dead statements. -/
inductive SameLive : Option Definition → Option Definition → Prop
  | missing : SameLive none none
  | native (i : Import) : SameLive (some (.native i)) (some (.native i))
  | script {f g : ScriptFunction} (h : f.SameLive g) :
      SameLive (some (.script f)) (some (.script g))

/-- Functions with the same live statements do the same. -/
theorem ScriptFunction.SameLive.enter_eq {f g : ScriptFunction} (h : f.SameLive g)
    (call : Caller σ) (depth : Nat) (args : List Value) (span : Span) :
    enter call depth f args span = enter call depth g args span := by
  have hbody : ∀ s, runBody call g.name.name s f.body = runBody call g.name.name s g.body := by
    intro s
    rw [← runBody_liveStatements, h.body, runBody_liveStatements]
  simp only [enter, ScriptFunction.arity, h.name, h.params, hbody]

/-! ### Runs that do the same -/

/-- Two runs leave the same host behind and tell the same events, with results that compare. -/
def Run.Same (Q : α → α → Prop) (m m' : Run σ α) : Prop :=
  ∀ h, Results Q (m h).result (m' h).result ∧ (m h).host = (m' h).host ∧
    (m h).events = (m' h).events

namespace Run.Same

theorem of_eq {m : Run σ α} : Run.Same Eq m m := fun _ => ⟨results_eq_iff.2 rfl, rfl, rfl⟩

theorem eq {m m' : Run σ α} (h : Run.Same Eq m m') : m = m' := by
  funext h₀
  obtain ⟨hr, hh, he⟩ := h h₀
  rcases ho : m h₀ with ⟨r, h₁, es⟩
  rcases ho' : m' h₀ with ⟨r', h₁', es'⟩
  rw [ho, ho'] at hr hh he
  obtain rfl := results_eq_iff.1 hr
  obtain rfl : h₁ = h₁' := hh
  obtain rfl : es = es' := he
  rfl

theorem bind {Q : α → α → Prop} {R : β → β → Prop} {m m' : Run σ α} {f f' : α → Run σ β}
    (hm : Run.Same Q m m') (hf : ∀ a b, Q a b → Run.Same R (f a) (f' b)) :
    Run.Same R (m >>= f) (m' >>= f') := by
  intro h
  obtain ⟨hr, hh, he⟩ := hm h
  rcases ho : m h with ⟨r, h₁, es⟩
  rcases ho' : m' h with ⟨r', h₁', es'⟩
  rw [ho, ho'] at hr hh he
  obtain rfl : h₁ = h₁' := hh
  obtain rfl : es = es' := he
  cases hr with
  | error e =>
    rw [bind_of_error f ho, bind_of_error f' ho']
    exact ⟨.error e, rfl, rfl⟩
  | @ok a b hab =>
    obtain ⟨hr', hh', he'⟩ := hf a b hab h₁
    rw [bind_of_ok f ho, bind_of_ok f' ho']
    exact ⟨hr', hh', congrArg (es ++ ·) he'⟩

end Run.Same

/-- The comparison of runs that do the same. -/
def same (σ : Type) : Simulation σ σ where
  Values := Eq
  Runs := Run.Same
  refl _ := rfl
  pure hq := fun _ => ⟨.ok hq, rfl, rfl⟩
  bind _ hm hf := hm.bind hf
  fail _ := fun _ => ⟨.error _, rfl, rfl⟩
  operate := by
    rintro a _ b _ op span rfl rfl
    exact .of_eq
  declare := by
    rintro v _ name rfl
    exact .of_eq
  returned := by
    rintro v _ function rfl
    exact .of_eq
  returnedVoid _ := .of_eq

/-- **A call depends on the calls of its live callees only.** -/
theorem enter_congr {call call' : Caller σ} {f : ScriptFunction}
    (hc : ∀ c ∈ liveCallees f.body, call c = call' c) (depth : Nat) (args : List Value)
    (span : Span) : enter call depth f args span = enter call' depth f args span := by
  refine Run.Same.eq (@Simulation.enter _ _ (same σ) call call' f depth depth .of_eq ?_ _ _
    (Simulation.values_refl args) span)
  intro c hmem args args' span ha
  obtain rfl : args = args' := List.forall₂_eq_eq_eq.symm ▸ ha
  rw [hc c hmem]
  exact .of_eq

/-! ### Live names -/

namespace Program

/-- The names that calls of a name can come to: the name itself, and what live statements call of
the functions that these names stand for. -/
inductive LooksUp (p : Program) (name : String) : String → Prop
  | start : p.LooksUp name name
  | callee {x : String} {f : ScriptFunction} {c : Identifier} (hx : p.LooksUp name x)
      (hf : p.get? x = some (.script f)) (hc : c ∈ liveCallees f.body) : p.LooksUp name c.name

/-- Names that can be reached are in every list of names that nothing leads out of. -/
theorem LooksUp.mem {p : Program} {name x : String} {xs : List String} (h : p.LooksUp name x)
    (hname : name ∈ xs)
    (hclosed : ∀ x ∈ xs, ∀ f, p.get? x = some (.script f) →
      ∀ c ∈ liveCallees f.body, c.name ∈ xs) : x ∈ xs := by
  induction h with
  | start => exact hname
  | callee _ hf hc ih => exact hclosed _ ih _ hf _ hc

/-- Whatever calls of a name can come to is the same in both programs. -/
def AgreesFrom (p : Program) (name : String) (p' : Program) : Prop :=
  ∀ x, p.LooksUp name x → SameLive (p.get? x) (p'.get? x)

end Program

namespace Interpreter

variable {p p' : Program} {name : String} (natives : Registry σ) (config : Config)

/-- Calls of what two programs agree on do the same. -/
theorem invoke_eq_of_agreesFrom (hp : p.AgreesFrom name p') (budget : Nat) :
    ∀ {x : String} {f g : ScriptFunction}, p.LooksUp name x → p.get? x = some (.script f) →
      f.SameLive g → ∀ (args : List Value) (span : Span),
        invoke ⟨p, natives, config⟩ budget f args span =
          invoke ⟨p', natives, config⟩ budget g args span := by
  induction budget with
  | zero =>
    intro x f g _ _ hfg args span
    rw [invoke_zero, invoke_zero, hfg.name, ScriptFunction.arity, ScriptFunction.arity, hfg.params]
  | succ budget ih =>
    intro x f g hx hf hfg args span
    rw [invoke_succ, invoke_succ, ← hfg.enter_eq]
    refine enter_congr (fun c hc => funext fun vs => funext fun s => ?_) _ args span
    have hlookup : p.LooksUp name c.name := hx.callee hf hc
    have hsame := hp c.name hlookup
    rw [callAt, callAt]
    simp only
    generalize hd : p.get? c.name = d at hsame ⊢
    generalize p'.get? c.name = d' at hsame ⊢
    cases hsame with
    | missing => rfl
    | native i => rfl
    | script h => exact ih hlookup hd h vs s

theorem callAt_eq_of_agreesFrom {callee : Identifier} (hp : p.AgreesFrom callee.name p')
    (budget : Nat) :
    callAt ⟨p, natives, config⟩ budget callee = callAt ⟨p', natives, config⟩ budget callee := by
  funext args span
  have hsame := hp callee.name .start
  rw [callAt, callAt]
  simp only
  generalize hd : p.get? callee.name = d at hsame ⊢
  generalize p'.get? callee.name = d' at hsame ⊢
  cases hsame with
  | missing => rfl
  | native i => rfl
  | script h => exact invoke_eq_of_agreesFrom natives config hp budget .start hd h args span

theorem call_eq_of_agreesFrom (hp : p.AgreesFrom name p') (args : List Value) :
    call ⟨p, natives, config⟩ name args = call ⟨p', natives, config⟩ name args := by
  have hsame := hp name .start
  rw [call, call]
  simp only
  generalize hd : p.get? name = d at hsame ⊢
  generalize p'.get? name = d' at hsame ⊢
  cases hsame with
  | missing => rfl
  | native i => rfl
  | script h =>
    simp only [h.name]
    exact invoke_eq_of_agreesFrom natives config hp _ .start hd h args _

theorem run_eq_of_agreesFrom (hp : p.AgreesFrom name p') (he : config.entryPoint = name) :
    run ⟨p, natives, config⟩ = run ⟨p', natives, config⟩ := by
  have hsame := hp name .start
  rw [run, run]
  simp only [he]
  generalize hd : p.get? name = d at hsame ⊢
  generalize p'.get? name = d' at hsame ⊢
  cases hsame with
  | missing => rfl
  | native i => rfl
  | script h =>
    simp only [h.name, h.params, invoke_eq_of_agreesFrom natives config hp _ .start hd h]

/-- Calls of a name, and runs that start with it, do the same and execute the same. -/
structure SameFrom (name : String) (it it' : Interpreter σ) : Prop where
  call_eq : ∀ args, it.call name args = it'.call name args
  callLog_eq : ∀ args h, it.callLog name args h = it'.callLog name args h
  run_eq : it.config.entryPoint = name → it.run = it'.run
  runLog_eq : it.config.entryPoint = name → ∀ h, it.runLog h = it'.runLog h

theorem sameFrom_of_agreesFrom (hp : p.AgreesFrom name p') :
    SameFrom name (⟨p, natives, config⟩ : Interpreter σ) ⟨p', natives, config⟩ where
  call_eq := call_eq_of_agreesFrom natives config hp
  callLog_eq args h :=
    congrArg (fun m => (m (h, [])).host.2)
      (call_eq_of_agreesFrom natives.recorded config hp args)
  run_eq := run_eq_of_agreesFrom natives config hp
  runLog_eq he h :=
    congrArg (fun m => (m (h, [])).host.2) (run_eq_of_agreesFrom natives.recorded config hp he)

end Interpreter

/-! ### Trimming -/

/-- Some of the names of a dictionary, with their values. -/
def Dictionary.restrict (keep : String → Bool) (d : Dictionary α) : Dictionary α :=
  ⟨d.entries.filter fun e => keep e.1, d.sorted.filter _⟩

theorem Dictionary.get?_restrict {keep : String → Bool} {name : String} (h : keep name)
    (d : Dictionary α) : (d.restrict keep).get? name = d.get? name := by
  rw [get?, get?, restrict, List.find?_filter]
  congr 2
  funext e
  by_cases he : e.1 = name
  · simp [he, h]
  · simp [he]

/-- A definition without dead statements. -/
def Definition.trimmed : Definition → Definition
  | script f => script { f with body := liveStatements f.body }
  | native i => native i

theorem sameLive_refl (d : Option Definition) : SameLive d d := by
  rcases d with _ | f | i
  · exact .missing
  · exact .script ⟨rfl, rfl, rfl⟩
  · exact .native i

theorem sameLive_trimmed (d : Option Definition) : SameLive d (d.map Definition.trimmed) := by
  rcases d with _ | f | i
  · exact .missing
  · exact .script ⟨rfl, rfl, (liveStatements_idem f.body).symm⟩
  · exact .native i

namespace Program

/-- A program without dead statements, and with some of its names only. -/
def trimmed (p : Program) (keep : String → Bool) : Program :=
  ⟨(p.definitions.restrict keep).mapNamed fun _ d => d.trimmed⟩

theorem agreesFrom_trimmed {p : Program} {name : String} {keep : String → Bool}
    (h : ∀ x, p.LooksUp name x → keep x) : p.AgreesFrom name (p.trimmed keep) := by
  intro x hx
  have hget : (p.trimmed keep).get? x = (p.get? x).map Definition.trimmed := by
    rw [get?, get?, trimmed, Dictionary.get?_mapNamed, Dictionary.get?_restrict (h x hx)]
  rw [hget]
  exact sameLive_trimmed _

end Program

namespace Interpreter

/-- **Dead code plays no part in calls and runs.** Take two programs that agree on all names that a
name can come to: neither has them, or they are the same imports, or functions with the same names,
parameters and statements up to the first `return`. Then calls of that name, and runs that start
with it, have the same results, tell the same events, execute the same native functions and leave
the same host behind.

So it is if everything behind a first `return` is dropped, and any names that cannot be reached. -/
theorem dead_code (natives : Registry σ) (config : Config) (p : Program) (name : String) :
    (∀ p', p.AgreesFrom name p' →
      SameFrom name (⟨p, natives, config⟩ : Interpreter σ) ⟨p', natives, config⟩) ∧
    ∀ keep : String → Bool, (∀ x, p.LooksUp name x → keep x) →
      SameFrom name (⟨p, natives, config⟩ : Interpreter σ) ⟨p.trimmed keep, natives, config⟩ :=
  ⟨fun _ hp => sameFrom_of_agreesFrom natives config hp,
    fun _ hkeep => sameFrom_of_agreesFrom natives config (Program.agreesFrom_trimmed hkeep)⟩

/-- The small script runs as it does with a function that nothing calls, and with a statement behind
the `return` of `main` that would call a function that does not exist. -/
theorem dead_code_small :
    let idle : ScriptFunction := ⟨⟨"idle", default⟩, [], [], default⟩
    let main : ScriptFunction := ⟨⟨"main", default⟩, [],
      [.result (.call ⟨"twice", default⟩ [.string "a" default] default) default,
        .expression (.call ⟨"nothing", default⟩ [] default) default], default⟩
    let p := (Program.small.add (.script idle)).add (.script main)
    Program.small.AgreesFrom "main" p ∧
      run ⟨.small, .echo, default⟩ = run ⟨p, .echo, default⟩ ∧
      (∀ x, Program.small.LooksUp "main" x → ["get", "main", "twice"].contains x) ∧
      run ⟨.small, .echo, default⟩ =
        run ⟨Program.small.trimmed ["get", "main", "twice"].contains, .echo, default⟩ := by
  intro idle main p
  have hmem : ∀ x, Program.small.LooksUp "main" x → x ∈ ["get", "main", "twice"] := by
    intro x hx
    refine hx.mem (by simp) ?_
    simp only [List.forall_mem_cons]
    refine ⟨?_, ?_, ?_, List.forall_mem_nil _⟩ <;> rintro f ⟨⟩ c hc <;>
      simp_all [liveCallees, Expr.callees, Expr.calleesAll, Program.small.named]
  have hagree : Program.small.AgreesFrom "main" p := by
    intro x hx
    have hx := hmem x hx
    simp only [List.mem_cons, List.not_mem_nil, or_false] at hx
    have hget : p.get? "get" = Program.small.get? "get" := by cbv
    have hmain : p.get? "main" = some (.script main) := by cbv
    have htwice : p.get? "twice" = Program.small.get? "twice" := by cbv
    rcases hx with rfl | rfl | rfl
    · rw [hget]
      exact SameLive.native _
    · rw [hmain]
      exact .script ⟨rfl, rfl, rfl⟩
    · rw [htwice]
      exact SameLive.script ⟨rfl, rfl, rfl⟩
  have hkeep : ∀ x, Program.small.LooksUp "main" x → ["get", "main", "twice"].contains x := by
    intro x hx
    simpa using hmem x hx
  obtain ⟨hsame, htrimmed⟩ := dead_code .echo default .small "main"
  exact ⟨hagree, (hsame p hagree).run_eq rfl, hkeep, (htrimmed _ hkeep).run_eq rfl⟩

end Interpreter

end Scriptlet
