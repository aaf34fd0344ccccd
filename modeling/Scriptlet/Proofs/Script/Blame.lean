import Scriptlet.Proofs.Grammar.Subphrase
import Scriptlet.Proofs.Run.Blame
import Scriptlet.Proofs.Token.Layout
import Scriptlet.Script.Run

/-!
# Errors blame the right text

An error of a run has a span, which was made when the script was scanned, put together when it was
read, and picked when the run failed. This module follows it all the way: the line of the source
file on which the span stands has exactly the text there that the error is about.

* Errors about a variable, an unknown function or the entry point blame a name.
* Errors about an operator blame the operator.
* Errors of a call blame all of it, from the name of its callee to the parenthesis that closes it.

A call that is one too deep is such a call as well, unless no call is allowed at all: then the entry
point itself is one too many, and its name is blamed.

## Main definitions

* `IsCallText` — a complete call as it is written
* `RuntimeError.Blames` — the text that an error is about

## Main results

* `SourceFile.LaidOut.shows_name`, `shows_operator`, `shows_call` — what the spans of a program show
* `Interpreter.blames_text` — errors of runs blame the text that they are about
-/

namespace Scriptlet

open Grammar

variable {σ : Type}

/-- A complete call as it is written: a name, perhaps blanks, and between parentheses that belong to
each other the tokens of so many arguments. -/
def IsCallText (name : String) (args : Nat) (text : List Char) : Prop :=
  ∃ (blanks : List Char) (row : List Spaced) (blanks' : List Char) (es : List Expr),
    text = name.toList ++ (blanks ++ '(' :: (written row ++ (blanks' ++ [')']))) ∧
    Blank blanks ∧ Blank blanks' ∧ (∀ s ∈ row, s.Proper) ∧ Balanced (row.map Spaced.token) ∧
    Listed IsExpression (row.map Spaced.token) es ∧ es.length = args

/-- The text that an error is about, in a run with these settings. -/
def RuntimeError.Blames (config : Config) : RuntimeError → List Char → Prop
  | duplicateVariable name _, text
  | undeclaredVariable name _, text
  | unknownFunction name _, text => text = name.toList
  | invalidEntryPoint name _, text => name = config.entryPoint ∧ text = name.toList
  | typeMismatch op _ _ _, text => text = op.text.toList
  | arityMismatch name _ actual _, text => IsCallText name actual text
  | unknownModule _ name _, text | unknownNativeFunction _ name _, text | native _ name _ _, text =>
    ∃ args, IsCallText name args text
  | callDepthExceeded name _ _, text =>
    if config.maxCallDepth = 0 then name = config.entryPoint ∧ text = name.toList
    else ∃ args, IsCallText name args text
  | missingEntryPoint _, _ => False

/-! ### What the spans of a program show -/

/-- An operator is written as its symbol. -/
theorem Grammar.IsOperator.exists_symbol {k : Token.Kind} {op : Operator} {level : Level}
    (h : IsOperator k op level) : ∃ s : Symbol, k = .symbol s ∧ s.text = op.text := by
  cases h <;> exact ⟨_, rfl, rfl⟩

namespace SourceFile.LaidOut

variable {f : SourceFile} {row : List Spaced}

theorem shows_name (h : f.LaidOut row) {name : Identifier}
    (hn : Inside IsIdentifier (row.map Spaced.token) name) :
    f.Shows name.span name.name.toList := by
  obtain ⟨us, hus, lexeme, rfl⟩ := hn
  obtain ⟨s, hs, hst⟩ := List.mem_map.1 (hus.subset (List.mem_singleton_self _))
  have hk : s.token.kind = .identifier name.name := by rw [hst]
  have hproper := h.proper hs (by simp [hk])
  have hshows := h.shows_token hs (hproper.unbroken_of_identifier hk)
  rwa [(hproper.2.eq_of_identifier hk).1, hst] at hshows

theorem shows_operator (h : f.LaidOut row) {level : Level} {lhs rhs : Expr} {op : Operator}
    {opSpan span : Span}
    (he : Inside IsExpression (row.map Spaced.token) (.binary level lhs op opSpan rhs span)) :
    f.Shows opSpan op.text.toList := by
  obtain ⟨us, hus, he⟩ := he
  obtain ⟨t, ht, hop, rfl⟩ := he.exists_operator
  obtain ⟨s, hs, rfl⟩ := List.mem_map.1 (hus.subset ht)
  obtain ⟨symbol, hk, htext⟩ := hop.exists_symbol
  have hproper := h.proper hs (by simp [hk])
  have hlexeme := hproper.2.eq_of_symbol hk
  have hshows := h.shows_token hs (hlexeme ▸ symbol.unbroken)
  rwa [hlexeme, htext] at hshows

theorem shows_call (h : f.LaidOut row) {callee : Identifier} {args : List Expr} {span : Span}
    (he : Inside IsExpression (row.map Spaced.token) (.call callee args span)) :
    ∃ text, f.Shows span text ∧ IsCallText callee.name args.length text := by
  obtain ⟨_, hus, he⟩ := he
  obtain ⟨call, hcall, rfl⟩ := List.infix_map_iff.1 hus
  have hkinds := List.forall_mem_map.1 he.inExpression
  have hproper : ∀ s ∈ call, s.Proper := fun s hs =>
    h.proper (hcall.subset hs) (hkinds s hs).ne.2
  obtain ⟨pre, post, rfl⟩ := hcall
  obtain ⟨lexeme, lparen, us, rparen, htokens, hl, hr, hargs, rfl⟩ := he.eq_call
  -- the tokens of the call with the blanks before them
  obtain ⟨first, rest, rfl, hfirst, hrest⟩ := List.map_eq_cons_iff.1 htokens
  obtain ⟨opening, rest, rfl, rfl, hinner⟩ := List.map_eq_cons_iff.1 hrest
  obtain ⟨inner, last, rfl, rfl, hlast⟩ := List.map_eq_append_iff.1 hinner
  obtain ⟨closing, last, rfl, rfl, hnil⟩ := List.map_eq_cons_iff.1 hlast
  obtain rfl := List.map_eq_nil_iff.1 hnil
  have hname : first.token.kind = .identifier callee.name := by rw [hfirst]
  have hspan : first.token.span = callee.span := by rw [hfirst]
  have hfirst' := hproper first (by simp)
  have hopening := hproper opening (by simp)
  have hclosing := hproper closing (by simp)
  have hopened : opening.token.lexeme.toList = ['('] := hopening.2.eq_of_symbol hl
  have hclosed : closing.token.lexeme.toList = [')'] := hclosing.2.eq_of_symbol hr
  have hrow : pre ++ first :: opening :: (inner ++ [closing]) ++ post =
      pre ++ first :: (opening :: inner ++ closing :: post) := by simp
  rw [hrow] at h
  have hline : ∀ s ∈ first :: opening :: inner, s.token.kind ≠ .newline := fun s hs =>
    (hkinds s (List.mem_append_left [closing] hs)).ne.1
  have hshows := h.shows_merge hline (hclosed ▸ Symbol.unbroken .rparen)
  rw [hspan, (hfirst'.2.eq_of_identifier hname).1, written_cons, Spaced.text, hopened, hclosed]
    at hshows
  refine ⟨_, hshows, opening.blanks, inner, closing.blanks, args, by simp, hopening.1, hclosing.1,
    fun s hs => hproper s (by simp [hs]), ?_, hargs, rfl⟩
  exact hargs.balanced fun _ _ => IsExpression.balanced

end SourceFile.LaidOut

/-! ### What errors blame -/

/-- The span of an error, if it has one, shows the text that the error is about. -/
def SourceFile.ShowsBlame (f : SourceFile) (config : Config) (e : RuntimeError) : Prop :=
  ∀ s, e.span? = some s → ∃ text, f.Shows s text ∧ e.Blames config text

section

variable {f : SourceFile} {row : List Spaced} {config : Config} {e : RuntimeError}

theorem CallError.showsBlame {name : String} {args : Nat} {span : Span}
    (h : CallError name args span e) (hmax : config.maxCallDepth ≠ 0)
    (hcall : ∃ text, f.Shows span text ∧ IsCallText name args text) : f.ShowsBlame config e := by
  obtain ⟨text, hshows, hcall⟩ := hcall
  intro s hs
  refine ⟨text, ?_⟩
  cases h with
  | arity expected =>
    cases hs
    exact ⟨hshows, hcall⟩
  | depth limit =>
    cases hs
    refine ⟨hshows, ?_⟩
    rw [RuntimeError.Blames, if_neg hmax]
    exact ⟨args, hcall⟩
  | module | function | native =>
    cases hs
    exact ⟨hshows, args, hcall⟩

/-- The errors of a node of an expression that was read from a file. -/
theorem Expr.Raises.showsBlame {d : Expr} (h : d.Raises e) (hf : f.LaidOut row)
    (hd : Inside IsExpression (row.map Spaced.token) d) (hmax : config.maxCallDepth ≠ 0) :
    f.ShowsBlame config e := by
  cases h with
  | @identifier name span =>
    rintro s ⟨⟩
    have hname : Inside IsIdentifier (row.map Spaced.token) ⟨name, span⟩ :=
      hd.trans fun _ h => .self h.eq_identifier
    exact ⟨_, hf.shows_name hname, rfl⟩
  | binary a b =>
    rintro s ⟨⟩
    exact ⟨_, hf.shows_operator hd, rfl⟩
  | unknown =>
    rintro s ⟨⟩
    refine ⟨_, hf.shows_name (hd.trans fun us h => ?_), rfl⟩
    obtain ⟨lexeme, lparen, us, rparen, rfl, -⟩ := h.eq_call
    exact ⟨_, List.infix_append_left, lexeme, rfl⟩
  | call h => exact h.showsBlame hmax (hf.shows_call hd)

/-- The errors that have their place in a function that was read from a file. -/
theorem ScriptFunction.Raises.showsBlame {g : ScriptFunction} (h : g.Raises e) (hf : f.LaidOut row)
    (hg : Inside IsFunction (row.map Spaced.token) g) (hmax : config.maxCallDepth ≠ 0) :
    f.ShowsBlame config e := by
  cases h with
  | parameter hp =>
    rintro s ⟨⟩
    exact ⟨_, hf.shows_name (hg.trans fun _ h => h.inside_params _ hp), rfl⟩
  | declaration hs =>
    rintro s ⟨⟩
    have hname := hg.trans fun _ h => (h.inside_body _ hs).trans fun _ h => h.inside_name
    exact ⟨_, hf.shows_name hname, rfl⟩
  | expression hs hd hr =>
    have hvalue := hg.trans fun _ h => (h.inside_body _ hs).trans fun _ h => h.inside_value
    exact hr.showsBlame hf (hvalue.trans fun _ h => h.inside _ hd) hmax

end

/-- A script that fails as it runs was read as a program, and a run of that program fails. -/
theorem exists_of_runScript {source : SourceFile} {natives : Registry σ} {config : Config} {h : σ}
    {e : RuntimeError} (he : (runScript source natives config h).result = .error (.runtime e)) :
    ∃ p, Program.ofText source.text = .ok p ∧
      ((Interpreter.mk p natives config).run h).result = .error e := by
  unfold runScript at he
  split at he
  · cases he
  · rename_i p hp
    replace he : Except.mapError ScriptError.runtime
        ((Interpreter.mk p natives config).run h).result = .error (.runtime e) := he
    refine ⟨p, hp, ?_⟩
    cases hr : ((Interpreter.mk p natives config).run h).result with
    | ok v =>
      rw [hr] at he
      cases he
    | error e' =>
      rw [hr] at he
      cases he
      rfl

/-- A text that is read as a program is scanned to tokens that are. -/
theorem Program.exists_scan_of_ofText {text : String} {p : Program}
    (hp : Program.ofText text = .ok p) :
    ∃ ts, scan text = .ok ts ∧ Program.ofTokens ts = .ok p := by
  unfold Program.ofText at hp
  cases hscan : scan text with
  | error e => simp [hscan] at hp
  | ok ts => cases hparse : Program.ofTokens ts <;> simp_all

/-- A file that is read as a program is the text of its tokens, which are the program in the
grammar. -/
theorem exists_layout_of_ofText {source : SourceFile} {p : Program}
    (hsize : source.text.utf8ByteSize < 2 ^ 32 - 1) (hp : Program.ofText source.text = .ok p) :
    ∃ row imports functions, source.LaidOut row ∧
      IsProgram (upToEnd (row.map Spaced.token)) imports functions ∧
      p.ConsistsOf (definitionsOf imports functions) := by
  obtain ⟨ts, hscan, hparse⟩ := Program.exists_scan_of_ofText hp
  obtain ⟨row, hrow, rfl, hwritten⟩ := scanFrom_sound hscan
  obtain ⟨imports, functions, hprogram, -, -, hdefinitions⟩ := Program.exists_of_ofTokens hparse
  exact ⟨row, imports, functions, ⟨hrow, hwritten.symm, hsize⟩, hprogram, hdefinitions⟩

/-- **Errors of runs blame the text that they are about.** Take a source file that is not too long
and that is read as a program. If a run of that program fails with an error that has a span, then
the span stands on one line of the file, and that line has exactly the right text there. -/
theorem Interpreter.blames_text {source : SourceFile} {p : Program}
    (hsize : source.text.utf8ByteSize < 2 ^ 32 - 1) (hp : Program.ofText source.text = .ok p)
    (natives : Registry σ) (config : Config) (h : σ) {e : RuntimeError} {s : Span}
    (he : ((Interpreter.mk p natives config).run h).result = .error e) (hs : e.span? = some s) :
    ∃ text, source.Shows s text ∧ e.Blames config text := by
  obtain ⟨row, imports, functions, hf, hprogram, hdefinitions⟩ := exists_layout_of_ofText hsize hp
  have hupTo : upToEnd (row.map Spaced.token) <:+: row.map Spaced.token :=
    (List.takeWhile_prefix _).isInfix
  -- every definition is named in the file, under the name that it is found by
  have hnames : p.KeepsNames := fun name d hd => (hdefinitions.of_get? hd).2
  have hshows : ∀ {name d}, p.get? name = some d → source.Shows d.name.span name.toList := by
    intro name d hd
    have hname := hf.shows_name ((hprogram.inside_name d (hdefinitions.of_get? hd).1).mono hupTo)
    rwa [hnames name d hd] at hname
  have hends := @ends_run _ ⟨p, natives, config⟩ hnames
  cases (hends h).2 e he with
  | missing => cases hs
  | invalid hd =>
    cases hs
    exact ⟨_, hshows hd, rfl, rfl⟩
  | @depth g hg hmax =>
    cases hs
    have hname : g.name.name = config.entryPoint := hnames _ _ hg
    refine ⟨_, hshows hg, ?_⟩
    rw [RuntimeError.Blames, if_pos hmax]
    exact ⟨hname, congrArg String.toList hname.symm⟩
  | program hmax hraises =>
    obtain ⟨name, g, hg, hr⟩ := hraises
    have hmem : g ∈ functions := by
      have := (hdefinitions.of_get? hg).1
      simpa [definitionsOf] using this
    exact hr.showsBlame hf ((hprogram.inside_function g hmem).mono hupTo) hmax s hs

set_option maxRecDepth 2000 in
/-- A call with an argument too many is blamed from its name to its closing parenthesis. The
argument takes one byte more than it has characters. -/
theorem Interpreter.blames_text_small :
    let source : SourceFile := ⟨"small", "func main() \x7b\nx := main (\"ä\") + x\n\x7d"⟩
    ∃ p text, Program.ofText source.text = .ok p ∧
      ((Interpreter.mk p .empty default).run ()).result =
        .error (.arityMismatch "main" 0 1 ⟨⟨2, 6⟩, ⟨2, 16⟩⟩) ∧
      source.Shows ⟨⟨2, 6⟩, ⟨2, 16⟩⟩ text ∧ IsCallText "main" 1 text := by
  intro source
  have hrun : (runScript source .empty default ()).result =
      .error (.runtime (.arityMismatch "main" 0 1 ⟨⟨2, 6⟩, ⟨2, 16⟩⟩)) := by cbv
  obtain ⟨p, hp, he⟩ := exists_of_runScript hrun
  obtain ⟨text, hshows, hcall⟩ := Interpreter.blames_text (by decide) hp .empty default () he rfl
  exact ⟨p, text, hp, he, hshows, hcall⟩

end Scriptlet
