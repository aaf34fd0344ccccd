import Scriptlet.Proofs.Grammar.Program
import Scriptlet.Proofs.Run.Names

/-!
# What runs rely on

An interpreter looks up the definition of a name, and from then on it shows the name that the
definition has. It binds parameters one by one, each of them as a new variable. Both could go wrong:
with a definition under another name, reports would name the wrong function, and with two parameters
of one name, a call would fail before its first statement, or lose an argument.

Neither happens in a program that was read from tokens. Its definitions stand under their own names,
and parameters have different names. So a run of it does exactly what a run does that is free of
both, by its construction: reports show the name that was looked up, and a call makes its scope at
once, with no way to fail.

## Main definitions

* `Program.WellFormed` — what runs rely on
* `ScriptFunction.scope` — the parameters, each with the argument at its position
* `Interpreter.callFound`, `callResolved`, `runResolved` — calls and runs that show the names that
  were looked up, and make the scope of a call at once

## Main results

* `bindAll_eq_scope`, `ScriptFunction.scope_perm` — what binding parameters comes to
* `Interpreter.run_eq_resolved`, `call_eq_resolved` — runs do what they would do by construction
* `Program.relied_on` — programs that are read from tokens are what runs rely on
-/

namespace Scriptlet

open Grammar

variable {σ : Type}

/-! ### The scope of a call -/

/-- The scope that a call starts with: the parameters, each with the argument at its position. -/
def ScriptFunction.scope (f : ScriptFunction) (args : List Value) : Scope :=
  ⟨.ofList (f.paramNames.zip args)⟩

/-- Names that are new and different from each other are bound without a failure. -/
theorem bindAll_of_nodup {d : Dictionary Value} {ps : List (Identifier × Value)}
    (hnodup : (ps.map (·.1.name)).Nodup) (hnew : ∀ p ∈ ps, d.get? p.1.name = none) :
    (bindAll ⟨d⟩ ps : Run σ Scope) =
      pure ⟨(ps.map fun p => (p.1.name, p.2)).foldl (fun d e => d.insert e.1 e.2) d⟩ := by
  induction ps generalizing d with
  | nil => rfl
  | cons p ps ih =>
    obtain ⟨hp, hps⟩ := List.nodup_cons.1 hnodup
    obtain ⟨hd, hds⟩ := List.forall_mem_cons.1 hnew
    have hbind : (bindNew ⟨d⟩ p.1 p.2 : Run σ Scope) = pure ⟨d.insert p.1.name p.2⟩ := by
      rw [bindNew, Scope.declare?, Dictionary.contains, hd]
      rfl
    have hnew' : ∀ q ∈ ps, (d.insert p.1.name p.2).get? q.1.name = none := by
      intro q hq
      have hne : q.1.name ≠ p.1.name := fun heq => hp (List.mem_map.2 ⟨q, hq, heq⟩)
      rw [Dictionary.get?_insert_of_ne _ _ hne]
      exact hds q hq
    rw [bindAll, hbind, pure_bind]
    exact ih hps hnew'

section

variable {f : ScriptFunction} {args : List Value}

theorem map_zip_params : (f.params.zip args).map (fun p => (p.1.name, p.2)) =
    f.paramNames.zip args := by
  rw [ScriptFunction.paramNames, List.zip_map_left]
  rfl

/-- **Parameters of different names are bound without a failure**, each to its argument. -/
theorem bindAll_eq_scope (h : f.paramNames.Nodup) (hargs : f.arity = args.length) :
    (bindAll ∅ (f.params.zip args) : Run σ Scope) = pure (f.scope args) := by
  rw [← map_name_zip hargs] at h
  refine (bindAll_of_nodup h fun _ _ => rfl).trans ?_
  rw [map_zip_params]
  rfl

/-- **A call on as many arguments as there are parameters binds exactly the parameters**, each once,
to the argument at the same position. -/
theorem ScriptFunction.scope_perm (h : f.paramNames.Nodup) (hargs : f.arity = args.length) :
    (f.scope args).bindings.entries.Perm (f.paramNames.zip args) := by
  have hfst : (f.paramNames.zip args).map Prod.fst = f.paramNames := by
    refine List.map_fst_zip ?_
    rw [paramNames, List.length_map]
    exact hargs.le
  have hperm := @Dictionary.foldl_insert_perm Value ∅ (f.paramNames.zip args) (by rwa [hfst])
    fun _ _ => rfl
  rwa [show (∅ : Dictionary Value).entries = [] from rfl, List.append_nil] at hperm

end

/-! ### Calls that show the name that was looked up -/

/-- One call of a script function that was found under a name. What is told shows this name. If the
number of arguments is right, the call cannot fail before its first statement. -/
def enterFound (call : Caller σ) (key : String) (depth : Nat) (f : ScriptFunction)
    (args : List Value) (span : Span) : Run σ Value := do
  checkArity key f.arity args.length span
  Run.tell (.invoke key depth)
  runBody call key (f.scope args) f.body

/-- An import under another name. -/
def Import.renamed (i : Import) (name : String) : Import :=
  { i with name := { i.name with name := name } }

namespace Interpreter

/-- A call of a definition that was found under a name, with `budget` more nested calls allowed. All
that is told of the call, and all errors that blame it, show this name. -/
def callFound (it : Interpreter σ) :
    (budget : Nat) → (key : String) → Definition → List Value → Span → Run σ Value
  | _, key, .native i, args, span => callNative it.natives (i.renamed key) args span
  | 0, key, .script f, args, span => do
    checkArity key f.arity args.length span
    Run.fail (.callDepthExceeded key it.config.maxCallDepth.toNat span)
  | budget + 1, key, .script f, args, span =>
    enterFound
      (fun callee values span =>
        match it.program.get? callee.name with
        | none => Run.fail (.unknownFunction callee.name callee.span)
        | some d => it.callFound budget callee.name d values span)
      key (it.config.maxCallDepth.toNat - budget) f args span

/-- `Interpreter.call`, with calls that show the names that were looked up. -/
def callResolved (it : Interpreter σ) (name : String) (args : List Value) : Run σ Value :=
  match it.program.get? name with
  | none => Run.fail (.missingEntryPoint name)
  | some d => it.callFound it.config.maxCallDepth.toNat name d args d.name.span

/-- `Interpreter.run`, with calls that show the names that were looked up. -/
def runResolved (it : Interpreter σ) : Run σ Value :=
  let entry := it.config.entryPoint
  match it.program.get? entry with
  | none => Run.fail (.missingEntryPoint entry)
  | some (.script f) =>
    if f.params.isEmpty then
      it.callFound it.config.maxCallDepth.toNat entry (.script f) [] f.name.span
    else Run.fail (.invalidEntryPoint entry f.name.span)
  | some (.native i) => Run.fail (.invalidEntryPoint entry i.name.span)

end Interpreter

/-- What runs rely on: definitions stand under their own names, and the parameters of a function
have different names. -/
structure Program.WellFormed (p : Program) : Prop where
  keepsNames : p.KeepsNames
  params_nodup : ∀ name f, p.get? name = some (.script f) → f.paramNames.Nodup

namespace Interpreter

variable {it : Interpreter σ} (hp : it.program.WellFormed)

include hp

/-- A function whose parameters are distinct is entered as it is by construction. -/
theorem enter_eq_found {key : String} {f : ScriptFunction}
    (hf : it.program.get? key = some (.script f)) (call : Caller σ) (depth : Nat)
    (args : List Value) (span : Span) :
    enter call depth f args span = enterFound call key depth f args span := by
  obtain rfl : f.name.name = key := hp.keepsNames key _ hf
  rw [enter, enterFound, checkArity]
  split
  · rename_i hargs
    simp only [bindAll_eq_scope (hp.params_nodup _ f hf) hargs, pure_bind]
  · rfl

theorem callNative_eq_found {key : String} {i : Import}
    (hi : it.program.get? key = some (.native i)) (budget : Nat) (args : List Value) (span : Span) :
    callNative it.natives i args span = it.callFound budget key (.native i) args span := by
  obtain rfl : i.name.name = key := hp.keepsNames key _ hi
  rw [callFound]
  rfl

/-- **A call of a script function is what it is by construction**, whatever number of calls may
still nest. -/
theorem invoke_eq_found {key : String} {f : ScriptFunction}
    (hf : it.program.get? key = some (.script f)) (budget : Nat) (args : List Value) (span : Span) :
    it.invoke budget f args span = it.callFound budget key (.script f) args span := by
  induction budget generalizing key f args span with
  | zero =>
    obtain rfl : f.name.name = key := hp.keepsNames key _ hf
    rfl
  | succ budget ih =>
    rw [invoke_succ, enter_eq_found hp hf, callFound]
    congr 1
    funext callee values span
    rw [callAt]
    rcases hd : it.program.get? callee.name with _ | g | i
    · rfl
    · exact ih hd values span
    · exact callNative_eq_found hp hd budget values span

/-- **A call from outside is what it is by construction.** -/
theorem call_eq_resolved (name : String) (args : List Value) :
    it.call name args = it.callResolved name args := by
  rw [call, callResolved]
  rcases hd : it.program.get? name with _ | f | i
  · rfl
  · exact invoke_eq_found hp hd _ args f.name.span
  · exact callNative_eq_found hp hd _ args i.name.span

/-- **A run is what it is by construction.** -/
theorem run_eq_resolved : it.run = it.runResolved := by
  rw [run, runResolved]
  rcases hd : it.program.get? it.config.entryPoint with _ | f | i
  · rfl
  · simp only [invoke_eq_found hp hd]
  · rfl

end Interpreter

/-! ### Programs that were read -/

namespace Program

/-- What is stored in a program of these imports and functions. -/
structure Stores (p : Program) (imports : List Import) (functions : List ScriptFunction) :
    Prop where
  wellFormed : p.WellFormed
  /-- An imported name stands for the import, and so for no function of the script. -/
  get?_import : ∀ i ∈ imports, p.get? i.name.name = some (.native i)
  get?_function : ∀ f ∈ functions, p.get? f.name.name = some (.script f)
  size_eq : p.size = imports.length + functions.length

theorem exists_stores_of_ofTokens {ts : List Token} {p : Program} (h : ofTokens ts = .ok p) :
    ∃ imports functions, IsProgram (upToEnd ts) imports functions ∧
      p.Stores imports functions := by
  obtain ⟨imports, functions, hprogram, -, hacc, hp⟩ := exists_of_ofTokens h
  have hnative : ∀ i ∈ imports, .native i ∈ definitionsOf imports functions := fun i hi =>
    List.mem_append_left _ (List.mem_map_of_mem hi)
  have hscript : ∀ f ∈ functions, .script f ∈ definitionsOf imports functions := fun f hf =>
    List.mem_append_right _ (List.mem_map_of_mem hf)
  refine ⟨imports, functions, hprogram, ⟨fun name d hd => (hp.of_get? hd).2, fun name f hf => ?_⟩,
    fun i hi => hp.get?_of_mem (hnative i hi), fun f hf => hp.get?_of_mem (hscript f hf), ?_⟩
  · have hmem : f ∈ functions := by simpa [definitionsOf] using (hp.of_get? hf).1
    exact (hacc f hmem).nodup
  · rw [size, Dictionary.size, hp.length_eq, List.length_map, definitionsOf, List.length_append,
      List.length_map, List.length_map]

/-- **Programs that are read from tokens are what runs rely on.** Every definition of such a program
stands under its own name, every imported name stands for its import, parameters of a function have
different names, and there are as many entries as imported names and functions together.

So a run does exactly what it would do if calls were shown by the name that was looked up, and if
the scope of a call were made at once, and so does every call from outside. In other words, the loop
that binds parameters never fails, and it binds each of them, and nothing else, to the argument at
its position. -/
theorem relied_on {ts : List Token} {p : Program} (h : ofTokens ts = .ok p) :
    (∃ imports functions, IsProgram (upToEnd ts) imports functions ∧ p.Stores imports functions) ∧
    ∀ {σ : Type} (natives : Registry σ) (config : Config),
      let it : Interpreter σ := ⟨p, natives, config⟩
      it.run = it.runResolved ∧
      (∀ name args, it.call name args = it.callResolved name args) ∧
      ∀ name f args, p.get? name = some (.script f) → f.arity = args.length →
        (bindAll ∅ (f.params.zip args) : Run σ Scope) = pure (f.scope args) ∧
        (f.scope args).bindings.entries.Perm (f.paramNames.zip args) := by
  have hstores := exists_stores_of_ofTokens h
  have hp : p.WellFormed := by
    obtain ⟨_, _, -, hstores⟩ := hstores
    exact hstores.wellFormed
  refine ⟨hstores, fun natives config => ⟨Interpreter.run_eq_resolved hp,
    Interpreter.call_eq_resolved hp, fun name f args hf hargs => ?_⟩⟩
  have hnodup := hp.params_nodup name f hf
  exact ⟨bindAll_eq_scope hnodup hargs, f.scope_perm hnodup hargs⟩

/-- A function of two parameters, called from outside. -/
theorem relied_on_small :
    let token (kind : Token.Kind) : Token := ⟨kind, "", default⟩
    let ts := [token (.keyword .funcKw), token (.identifier "second"), token (.symbol .lparen),
      token (.identifier "b"), token (.symbol .comma), token (.identifier "a"),
      token (.symbol .rparen), token (.symbol .lbrace), token .newline, token (.keyword .returnKw),
      token (.identifier "a"), token .newline, token (.symbol .rbrace)]
    let args : List Value := [.bool false, .bool true]
    ∃ p f, ofTokens ts = .ok p ∧ p.get? "second" = some (.script f) ∧
      (f.scope args).bindings.entries.Perm [("b", .bool false), ("a", .bool true)] ∧
      Interpreter.call ⟨p, Registry.echo, .default⟩ "second" args =
        Interpreter.callResolved ⟨p, Registry.echo, .default⟩ "second" args := by
  intro token ts args
  let name (x : String) : Identifier := ⟨x, default⟩
  let f : ScriptFunction := ⟨name "second", [name "b", name "a"],
    [.result (.identifier "a" default) default], default⟩
  have hread : ofTokens ts = .ok (.ofList [("second", .script f)]) := rfl
  obtain ⟨-, hruns⟩ := relied_on hread
  obtain ⟨-, hcall, hscope⟩ := hruns Registry.echo .default
  exact ⟨_, f, hread, rfl, (hscope "second" f args rfl rfl).2, hcall "second" args⟩

end Program

end Scriptlet
