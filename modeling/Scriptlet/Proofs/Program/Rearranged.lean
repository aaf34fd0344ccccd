import Scriptlet.Proofs.Grammar.Program
import Scriptlet.Proofs.Run.Spanless

/-!
# The order of definitions

Imports come before functions, but apart from that definitions may stand in any order. What is read
is the same program up to spans, and so it runs alike. Only if a name is defined twice does the
order show: reading stops at the first definition whose name is taken, and which one that is depends
on the order.

## Main definitions

* `Program.FailsAtRepeated` — reading stops at a name that is defined twice

## Main results

* `Program.addAll_of_not_nodup` — of definitions whose names are not all different, one with a name
  that occurs twice is to blame
* `Program.ConsistsOf.spanless_eq` — programs of the same definitions are the same
* `Program.rearranged` — the order of imports and of functions does not matter
-/

namespace Scriptlet

open Grammar

/-! ### Checks do not look at spans -/

namespace Expr

mutual

theorem nesting_spanless : ∀ e : Expr, e.spanless.nesting = e.nesting
  | binary _ lhs _ _ rhs _ => by
    rw [spanless, nesting, nesting, lhs.nesting_spanless, rhs.nesting_spanless]
  | call _ args _ => by rw [spanless, nesting, nesting, nestingAll_spanlessAll args]
  | number .. | bool .. | string .. | identifier .. => rfl

theorem nestingAll_spanlessAll : ∀ es : List Expr, nestingAll (spanlessAll es) = nestingAll es
  | [] => rfl
  | e :: es => by
    rw [spanlessAll, nestingAll, nestingAll, e.nesting_spanless, nestingAll_spanlessAll es]

end

end Expr

theorem Stmt.value_spanless (s : Stmt) : s.spanless.value = s.value.spanless := by
  cases s <;> rfl

theorem Reader.acceptable_spanless {n : Nat} {f : ScriptFunction} :
    Acceptable n f.spanless ↔ Acceptable n f := by
  have hnames : f.spanless.params.map Identifier.name = f.params.map Identifier.name := by
    rw [ScriptFunction.params_spanless, List.map_map]
    rfl
  have hnesting : (∀ s ∈ f.spanless.body, s.value.nesting ≤ n) ↔
      ∀ s ∈ f.body, s.value.nesting ≤ n := by
    simp only [ScriptFunction.body_spanless, List.forall_mem_map, Stmt.value_spanless,
      Expr.nesting_spanless]
  constructor
  · rintro ⟨hnodup, hle⟩
    exact ⟨hnames ▸ hnodup, hnesting.1 hle⟩
  · rintro ⟨hnodup, hle⟩
    exact ⟨hnames ▸ hnodup, hnesting.2 hle⟩

/-! ### Definitions in another order -/

section

variable {imports imports' : List Import} {functions functions' : List ScriptFunction}

theorem Reader.acceptable_of_perm {n : Nat} (hacc : ∀ f ∈ functions, Acceptable n f)
    (hf : (functions.map ScriptFunction.spanless).Perm (functions'.map ScriptFunction.spanless)) :
    ∀ f ∈ functions', Acceptable n f := by
  intro f hmem
  obtain ⟨g, hg, hspanless⟩ := List.mem_map.1 (hf.mem_iff.2 (List.mem_map_of_mem hmem))
  rw [← acceptable_spanless, ← hspanless, acceptable_spanless]
  exact hacc g hg

theorem definitionsOf_perm (hi : (imports.map Import.spanless).Perm (imports'.map Import.spanless))
    (hf : (functions.map ScriptFunction.spanless).Perm (functions'.map ScriptFunction.spanless)) :
    ((definitionsOf imports functions).map Definition.spanless).Perm
      ((definitionsOf imports' functions').map Definition.spanless) := by
  have hnatives := hi.map Definition.native
  have hscripts := hf.map Definition.script
  simp only [definitionsOf, List.map_append, List.map_map] at hnatives hscripts ⊢
  exact hnatives.append hscripts

end

namespace Program

variable {p p' : Program} {ds ds' : List Definition}

theorem names_perm (hds : (ds.map Definition.spanless).Perm (ds'.map Definition.spanless)) :
    (ds.map fun d => d.name.name).Perm (ds'.map fun d => d.name.name) := by
  have hnames : ∀ ds : List Definition,
      (ds.map Definition.spanless).map (fun d => d.name.name) = ds.map fun d => d.name.name := by
    intro ds
    rw [List.map_map]
    exact List.map_congr_left fun d _ => by simp
  rw [← hnames ds, ← hnames ds']
  exact hds.map _

theorem ConsistsOf.spanless (h : p.ConsistsOf ds) :
    p.spanless.ConsistsOf (ds.map Definition.spanless) := by
  have hentries := h.map fun e : String × Definition => (e.1, e.2.spanless)
  rw [ConsistsOf, List.map_map]
  rw [List.map_map] at hentries
  refine hentries.trans (List.Perm.of_eq (List.map_congr_left fun d _ => ?_))
  simp [entry]

/-- **Programs of the same definitions up to spans**, in whatever order, are the same up to
spans. -/
theorem ConsistsOf.spanless_eq (h : p.ConsistsOf ds) (h' : p'.ConsistsOf ds')
    (hds : (ds.map Definition.spanless).Perm (ds'.map Definition.spanless)) :
    p.spanless = p'.spanless := by
  have hentries : p.spanless.definitions.entries.Perm p'.spanless.definitions.entries :=
    (h.spanless.trans (hds.map entry)).trans h'.spanless.symm
  exact congrArg Program.mk (Dictionary.eq_of_perm hentries)

/-! ### Names that are taken -/

/-- What is found after definitions were added to the empty program is one of them. -/
theorem mem_of_get?_foldl_add {name : String} {d : Definition} (h : Fresh ∅ ds)
    (hget : (ds.foldl add ∅).get? name = some d) : d ∈ ds ∧ d.name.name = name :=
  ((consistsOf_iff (fresh_empty_iff.1 h)).2 rfl).of_get? hget

/-- **Definitions with a name in common cannot be added to the empty program.** A name is to blame
that occurs at least twice. -/
theorem addAll_of_not_nodup (h : ¬ (ds.map fun d => d.name.name).Nodup) :
    ∃ name earlier, addAll ∅ ds = .error (.duplicateFunction name earlier) ∧
      2 ≤ (ds.map fun d => d.name.name).count name.name := by
  obtain ⟨pre, d, post, earlier, rfl, hpre, hget, herror⟩ :=
    addAll_of_not_fresh fun hfresh => h (fresh_empty_iff.1 hfresh)
  obtain ⟨hmem, hname⟩ := mem_of_get?_foldl_add hpre hget
  refine ⟨d.name, earlier.name.span, herror, ?_⟩
  have hbefore : 0 < (pre.map fun d => d.name.name).count d.name.name :=
    List.count_pos_iff.2 (List.mem_map.2 ⟨earlier, hmem, hname⟩)
  rw [List.map_append, List.count_append, List.map_cons, List.count_cons_self]
  omega

/-- Reading stops because of a name that occurs at least twice among the given ones. -/
def FailsAtRepeated (names : List String) (ts : List Token) : Prop :=
  ∃ name earlier, ofTokens ts = .error (.duplicateFunction name earlier) ∧
    2 ≤ names.count name.name

theorem failsAtRepeated_of_not_nodup {ts : List Token} (hread : ofTokens ts = addAll ∅ ds)
    (h : ¬ (ds.map fun d => d.name.name).Nodup) :
    FailsAtRepeated (ds.map fun d => d.name.name) ts := by
  obtain ⟨name, earlier, herror, hcount⟩ := addAll_of_not_nodup h
  exact ⟨name, earlier, hread.trans herror, hcount⟩

theorem FailsAtRepeated.of_perm {names names' : List String} {ts : List Token}
    (h : FailsAtRepeated names' ts) (hnames : names.Perm names') : FailsAtRepeated names ts := by
  obtain ⟨name, earlier, herror, hcount⟩ := h
  exact ⟨name, earlier, herror, hnames.count_eq name.name ▸ hcount⟩

/-- **The order of imports and of functions does not matter.** Take two rows of the grammar with the
same imports and the same functions up to spans, in any order; also the names inside one import may
come in any order, or in imports of their own. No function has two parameters of one name, and no
expression nests too deep. If all definitions have different names, both rows are read, as programs
that are the same up to spans. Then all runs of the two are the same up to the span of an error: the
value or the error, the events, and what happens to the host. Otherwise neither is read, and each
fails at a name that occurs at least twice. -/
theorem rearranged {ts ts' : List Token} {imports imports' : List Import}
    {functions functions' : List ScriptFunction}
    (h : IsProgram (upToEnd ts) imports functions)
    (h' : IsProgram (upToEnd ts') imports' functions')
    (hi : (imports.map Import.spanless).Perm (imports'.map Import.spanless))
    (hf : (functions.map ScriptFunction.spanless).Perm (functions'.map ScriptFunction.spanless))
    (hparams : ∀ f ∈ functions, (f.params.map Identifier.name).Nodup)
    (hnesting : ∀ f ∈ functions, ∀ s ∈ f.body, s.value.nesting ≤ maxNesting) :
    let names := (definitionsOf imports functions).map fun d => d.name.name
    (names.Nodup ∧ ∃ p p', ofTokens ts = .ok p ∧ ofTokens ts' = .ok p' ∧
      p.spanless = p'.spanless ∧
      ∀ {σ : Type} (natives : Registry σ) (config : Config) (host : σ),
        (Interpreter.run ⟨p, natives, config⟩ host).spanless =
          (Interpreter.run ⟨p', natives, config⟩ host).spanless ∧
        ∀ name args, (Interpreter.call ⟨p, natives, config⟩ name args host).spanless =
          (Interpreter.call ⟨p', natives, config⟩ name args host).spanless) ∨
    (¬ names.Nodup ∧ FailsAtRepeated names ts ∧ FailsAtRepeated names ts') := by
  intro names
  have hacc : ∀ f ∈ functions, Reader.Acceptable maxNesting f := fun f hf =>
    ⟨hparams f hf, hnesting f hf⟩
  have hread := ofTokens_of_isProgram h hacc
  have hread' := ofTokens_of_isProgram h' (Reader.acceptable_of_perm hacc hf)
  have hds := definitionsOf_perm hi hf
  have hnames := names_perm hds
  by_cases hnodup : names.Nodup
  · have hnodup' := hnames.nodup_iff.1 hnodup
    have hspanless :=
      ((consistsOf_iff hnodup).2 rfl).spanless_eq ((consistsOf_iff hnodup').2 rfl) hds
    rw [addAll_of_fresh (fresh_empty_iff.2 hnodup)] at hread
    rw [addAll_of_fresh (fresh_empty_iff.2 hnodup')] at hread'
    refine .inl ⟨hnodup, _, _, hread, hread', hspanless, fun natives config host => ⟨?_, ?_⟩⟩
    · exact congrFun (Interpreter.run_spanless_eq hspanless natives config) host
    · intro name args
      exact congrFun (Interpreter.call_spanless_eq hspanless natives config name args) host
  · have hnodup' := fun h => hnodup (hnames.nodup_iff.2 h)
    exact .inr ⟨hnodup, failsAtRepeated_of_not_nodup hread hnodup,
      (failsAtRepeated_of_not_nodup hread' hnodup').of_perm hnames⟩

/-- Both the names of the import and the functions are swapped. -/
theorem rearranged_small :
    let token (line : UInt32) (kind : Token.Kind) : Token := ⟨kind, "", .point ⟨line, 1⟩⟩
    let importOf (line : UInt32) (a b : String) := [token line (.keyword .importKw),
      token line (.symbol .lbrace), token line (.identifier a), token line (.symbol .comma),
      token line (.identifier b), token line (.symbol .rbrace), token line (.keyword .fromKw),
      token line (.string "host"), token line .newline]
    let functionOf (line : UInt32) (name : String) := [token line (.keyword .funcKw),
      token line (.identifier name), token line (.symbol .lparen), token line (.symbol .rparen),
      token line (.symbol .lbrace), token line .newline, token line (.symbol .rbrace),
      token line .newline]
    let ts := importOf 1 "a" "b" ++ (functionOf 2 "f" ++ functionOf 3 "main")
    let ts' := importOf 1 "b" "a" ++ (functionOf 2 "main" ++ functionOf 3 "f")
    ∃ p p', ofTokens ts = .ok p ∧ ofTokens ts' = .ok p' ∧ p.spanless = p'.spanless ∧
      (Interpreter.run ⟨p, Registry.echo, .default⟩ ()).spanless =
        (Interpreter.run ⟨p', Registry.echo, .default⟩ ()).spanless := by
  intro token importOf functionOf ts ts'
  let place (line : UInt32) : Span := .point ⟨line, 1⟩
  let native (line : UInt32) (name : String) : Import :=
    ⟨⟨name, place line⟩, "host", (place line).merge (place line)⟩
  let script (line : UInt32) (name : String) : ScriptFunction :=
    ⟨⟨name, place line⟩, [], [], (place line).merge (place line)⟩
  have himport : ∀ line a b, IsImport ((importOf line a b).take 8) [native line a, native line b] :=
    fun line a b => @IsImport.mk _ _ _ [⟨a, place line⟩, ⟨b, place line⟩] _ _ _ _ rfl rfl
      (.more ⟨"", rfl⟩ rfl (.one ⟨"", rfl⟩)) rfl rfl rfl
  have hfunction : ∀ line name, IsFunction ((functionOf line name).take 7) (script line name) :=
    fun line name => @IsFunction.mk _ _ ⟨name, place line⟩ _ [] [] _ _ _ [] [] _ rfl ⟨"", rfl⟩ rfl
      .none rfl rfl rfl (.blank (List.forall_mem_nil _)) rfl
  have hline : ∀ line, Newlines [token line .newline] := fun line t ht => by
    rw [List.mem_singleton.1 ht]
  have hprogram : ∀ a b f g, IsProgram (importOf 1 a b ++ (functionOf 2 f ++ functionOf 3 g))
      [native 1 a, native 1 b] [script 2 f, script 3 g] := fun a b f g =>
    @IsProgram.mk [] _ _ [[native 1 a, native 1 b]] _ (List.forall_mem_nil _)
      (.cons (himport 1 a b) (hline 1) .nil)
      (.cons (hfunction 2 f) (hline 2) (.cons (hfunction 3 g) (hline 3) .nil))
  have hread : ∀ a b f g, IsProgram (upToEnd (importOf 1 a b ++ (functionOf 2 f ++ functionOf 3 g)))
      [native 1 a, native 1 b] [script 2 f, script 3 g] := fun a b f g => by
    rw [upToEnd_of_noEnd (hprogram a b f g).noEnd]
    exact hprogram a b f g
  obtain ⟨-, p, p', hp, hp', hspanless, hruns⟩ | ⟨hnodup, -⟩ :=
    rearranged (hread "a" "b" "f" "main") (hread "b" "a" "main" "f") (.swap _ _ _) (.swap _ _ _)
      (by simp [script]) (by simp [script])
  · exact ⟨p, p', hp, hp', hspanless, (hruns _ _ _).1⟩
  · exact absurd (by decide) hnodup

end Program

end Scriptlet
