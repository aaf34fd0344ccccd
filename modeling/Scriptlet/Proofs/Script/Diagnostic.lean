import Scriptlet.Proofs.Grammar.HardEnd
import Scriptlet.Proofs.Script.Blame
import Scriptlet.Proofs.Token.Failure

/-!
# Diagnostics point into their file

A script can fail when it is scanned, when it is read and when it is run. Whatever the stage, the
diagnostic of the failure points to a place in the source file and quotes its line, because the span
that it has starts where a reader of the text once stood. Spans of scan errors do so by themselves.
All other spans are those of tokens, or are merged from them: the merged span starts where one of
the two starts. A missing entry point is the one failure without a place.

## Main definitions

* `SourceFile.Reaches` — a reader of the text comes by a position
* `Category.hundreds` — which codes belong to a category
* `Diagnostic.PointsInto` — a diagnostic points to a place in a file and quotes its line
* `Span.StartsAmong` — a span starts where a token starts

## Main results

* `Interpreter.startsAmong` — what errors of runs blame starts with a token
* `runScript_diagnostic` — diagnostics are consistent with their file and their stage
-/

namespace Scriptlet

open Grammar

variable {σ : Type}

/-! ### Places in a file -/

/-- A reader that walks through the text of a file comes by this position. -/
def SourceFile.Reaches (f : SourceFile) (p : Position) : Prop :=
  ∃ before after, f.text.toList = before ++ after ∧ p = (Place.first.advanceAll before).position

/-- A diagnostic points to a place in a file, which may be the one behind its line, and quotes that
line. -/
structure Diagnostic.PointsInto (d : Diagnostic) (f : SourceFile) : Prop where
  line_pos : 1 ≤ d.span.start.line.toNat
  line_le : d.span.start.line.toNat ≤ f.lineCount
  quotes : f.line? d.span.start.line = some d.sourceLine
  column_pos : 1 ≤ d.span.start.column.toNat
  column_le : ∃ line, f.lines[d.span.start.line.toNat - 1]? = some line ∧
    d.span.start.column.toNat ≤ byteCount line + 1

/-- **A diagnostic that quotes its line from a file** points into the file if a reader comes by its
start. The empty line that stands for a missing one is not used. -/
theorem Diagnostic.pointsInto_of_reaches {d : Diagnostic} {f : SourceFile}
    (hsize : f.text.utf8ByteSize < 2 ^ 32 - 1) (h : f.Reaches d.span.start)
    (hline : d.sourceLine = (f.line? d.span.start.line).getD "") : d.PointsInto f := by
  obtain ⟨before, after, htext, hstart⟩ := h
  have hbefore : byteCount before + 0 < 2 ^ 32 - 1 := by
    rw [← byteCount_toList, htext, byteCount_append] at hsize
    omega
  obtain ⟨hl, hc, -⟩ := Place.span_advanceAll_first hbefore
  have hl : d.span.start.line.toNat = before.count '\n' + 1 := by rw [hstart]; exact hl
  have hc : d.span.start.column.toNat = byteCount (lastLine before) + 1 := by rw [hstart]; exact hc
  have hlines : f.lines[before.count '\n']? =
      some (lastLine before ++ after.takeWhile (· ≠ '\n')) := by
    rw [SourceFile.lines, htext, getElem?_splitLines]
  obtain ⟨hlt, -⟩ := List.getElem?_eq_some_iff.1 hlines
  have hquoted : f.line? d.span.start.line =
      some (String.ofList (trimReturns (lastLine before ++ after.takeWhile (· ≠ '\n')))) := by
    rw [SourceFile.line?_eq_getElem? _ hl, hlines, Option.map_some]
  rw [f.length_lines] at hlt
  refine ⟨by omega, by rw [hl]; exact hlt, ?_, by omega, _, by rw [hl]; exact hlines, ?_⟩
  · rw [hline, hquoted, Option.getD_some]
  · rw [hc, byteCount_append]
    omega

theorem SourceFile.LaidOut.reaches {f : SourceFile} {row : List Spaced} (h : f.LaidOut row)
    {t : Token} (ht : t ∈ row.map Spaced.token) : f.Reaches t.span.start := by
  obtain ⟨s, hs, rfl⟩ := List.mem_map.1 ht
  obtain ⟨pre, post, rfl⟩ := List.append_of_mem hs
  refine ⟨written pre ++ s.blanks, s.token.lexeme.toList ++ written post, ?_, ?_⟩
  · rw [h.text_eq, written_append, written_cons, Spaced.text]
    simp only [List.append_assoc]
  · rw [h.laid.of_append.2.span_eq, ← Place.advanceAll_append]
    rfl

/-! ### Codes and categories -/

/-- The hundreds of the codes that belong to a category. -/
def Category.hundreds : Category → Nat
  | lex => 1
  | parse => 2
  | binding => 3
  | resolution => 4
  | arity => 5
  | type => 6
  | entryPoint => 7
  | runtime => 8

/-- **The category of a code** is the only one that its hundreds belong to. -/
theorem ErrorCode.hundreds_eq_iff {code : ErrorCode} (hlow : 100 ≤ code.number.toNat)
    (hhigh : code.number.toNat < 900) {c : Category} :
    c.hundreds = code.number.toNat / 100 ↔ c = code.category := by
  have hlow : 1 ≤ code.number.toNat / 100 := by omega
  have hhigh : code.number.toNat / 100 ≤ 8 := by omega
  rw [category]
  generalize code.number.toNat / 100 = hundreds at *
  interval_cases hundreds <;> cases c <;> simp [Category.hundreds]

/-! ### Spans of runs -/

/-- A span starts where one of the tokens starts. -/
def Span.StartsAmong (s : Span) (ts : List Token) : Prop := ∃ t ∈ ts, s.start = t.span.start

section

variable {ts : List Token}

theorem Span.startsAmong_of_mem {t : Token} (h : t ∈ ts) : t.span.StartsAmong ts := ⟨t, h, rfl⟩

theorem Span.StartsAmong.merge {a b : Span} (ha : a.StartsAmong ts) (hb : b.StartsAmong ts) :
    (a.merge b).StartsAmong ts := by
  obtain ⟨t, ht, hat⟩ := ha
  obtain ⟨u, hu, hbu⟩ := hb
  by_cases hle : a.start ≤ b.start
  · exact ⟨t, ht, (if_pos hle).trans hat⟩
  · exact ⟨u, hu, (if_neg hle).trans hbu⟩

theorem Grammar.IsIdentifier.startsAmong {name : Identifier} (h : Inside IsIdentifier ts name) :
    name.span.StartsAmong ts := by
  obtain ⟨us, hus, lexeme, rfl⟩ := h
  exact Span.startsAmong_of_mem (hus.subset (List.mem_singleton_self _))

/-- The errors that an expression raises blame a name, an operator or a call. -/
theorem Expr.Raises.startsAmong {d : Expr} {e : RuntimeError} (h : d.Raises e)
    (hd : Inside IsExpression ts d) : ∀ s, e.span? = some s → s.StartsAmong ts := by
  cases h with
  | @identifier name span =>
    rintro s ⟨⟩
    have hname : Inside IsIdentifier ts ⟨name, span⟩ := hd.trans fun _ h => .self h.eq_identifier
    exact IsIdentifier.startsAmong hname
  | binary a b =>
    rintro s ⟨⟩
    obtain ⟨us, hus, he⟩ := hd
    obtain ⟨t, ht, -, rfl⟩ := he.exists_operator
    exact Span.startsAmong_of_mem (hus.subset ht)
  | unknown =>
    rintro s ⟨⟩
    obtain ⟨us, hus, he⟩ := hd
    obtain ⟨lexeme, lparen, vs, rparen, rfl, -⟩ := he.eq_call
    exact ⟨_, hus.subset List.mem_cons_self, rfl⟩
  | @call callee args span _ h =>
    have hspan : span.StartsAmong ts := by
      obtain ⟨us, hus, he⟩ := hd
      obtain ⟨lexeme, lparen, vs, rparen, rfl, -, -, -, rfl⟩ := he.eq_call
      have hcallee : callee.span.StartsAmong ts := ⟨_, hus.subset List.mem_cons_self, rfl⟩
      exact hcallee.merge (Span.startsAmong_of_mem (hus.subset (by simp)))
    rintro s hs
    cases h <;> cases hs <;> exact hspan

theorem ScriptFunction.Raises.startsAmong {g : ScriptFunction} {e : RuntimeError} (h : g.Raises e)
    (hg : Inside IsFunction ts g) : ∀ s, e.span? = some s → s.StartsAmong ts := by
  cases h with
  | parameter hp =>
    rintro s ⟨⟩
    exact IsIdentifier.startsAmong (hg.trans fun _ h => h.inside_params _ hp)
  | declaration hs =>
    rintro s ⟨⟩
    exact IsIdentifier.startsAmong
      (hg.trans fun _ h => (h.inside_body _ hs).trans fun _ h => h.inside_name)
  | expression hs hd hr =>
    have hvalue := hg.trans fun _ h => (h.inside_body _ hs).trans fun _ h => h.inside_value
    exact hr.startsAmong (hvalue.trans fun _ h => h.inside _ hd)

/-- **What errors of runs blame starts with a token** of the program that is run. -/
theorem Interpreter.startsAmong {it : Interpreter σ} {imports : List Import}
    {functions : List ScriptFunction} (hprogram : IsProgram ts imports functions)
    (hp : it.program.ConsistsOf (definitionsOf imports functions)) {h : σ} {e : RuntimeError}
    (he : (it.run h).result = .error e) : ∀ s, e.span? = some s → s.StartsAmong ts := by
  have hnames : it.program.KeepsNames := fun name d hd => (hp.of_get? hd).2
  have hdefined : ∀ {name d}, it.program.get? name = some d → d.name.span.StartsAmong ts :=
    fun hd => IsIdentifier.startsAmong (hprogram.inside_name _ (hp.of_get? hd).1)
  cases (ends_run hnames h).2 e he with
  | missing => exact nofun
  | invalid hd =>
    rintro s ⟨⟩
    exact hdefined hd
  | @depth g hg hmax =>
    rintro s ⟨⟩
    exact hdefined hg
  | program hmax hraises =>
    obtain ⟨name, g, hg, hr⟩ := hraises
    have hmem : g ∈ functions := by simpa [definitionsOf] using (hp.of_get? hg).1
    exact hr.startsAmong (hprogram.inside_function g hmem)

end

/-! ### Scripts that fail -/

/-- A row of scanned tokens has a mark of its end already. -/
theorem SourceFile.LaidOut.withEnd_eq {f : SourceFile} {row : List Spaced} (h : f.LaidOut row) :
    withEnd (row.map Spaced.token) = row.map Spaced.token := by
  obtain ⟨init, blanks, span, rfl, -⟩ := h.laid.exists_concat
  rw [List.map_append]
  exact withEnd_concat _ rfl

/-- Diagnostics of scripts that cannot be read point into their file. -/
theorem CompileError.pointsInto {source : SourceFile} {e : CompileError}
    (hsize : source.text.utf8ByteSize < 2 ^ 32 - 1) (h : Program.ofText source.text = .error e) :
    (e.diagnostic source).PointsInto source := by
  unfold Program.ofText at h
  cases hscan : Scriptlet.scan source.text with
  | error err =>
    obtain rfl : CompileError.scan err = e := by simpa [hscan] using h
    obtain ⟨before, after, htext, hstart, -⟩ := exists_failsAt hscan
    exact Diagnostic.pointsInto_of_reaches hsize ⟨before, after, htext, hstart⟩ rfl
  | ok ts =>
    cases hparse : Program.ofTokens ts with
    | ok p => simp [hscan, hparse] at h
    | error err =>
      obtain rfl : CompileError.parse err = e := by simpa [hscan, hparse] using h
      obtain ⟨row, hrow, rfl, hwritten⟩ := scanFrom_sound hscan
      have hlaid : source.LaidOut row := ⟨hrow, hwritten.symm, hsize⟩
      obtain ⟨t, ht, hspan⟩ := Program.exists_token_of_ofTokens hparse
      rw [hlaid.withEnd_eq] at ht
      refine Diagnostic.pointsInto_of_reaches hsize ?_ rfl
      exact (congrArg Span.start hspan) ▸ hlaid.reaches ht

theorem RuntimeError.diagnostic_of_span? {e : RuntimeError} {s : Span} (hs : e.span? = some s)
    (source : SourceFile) : e.diagnostic source =
      { Diagnostic.located source e.code e.message s with suggestion := e.suggestion? } := by
  rw [diagnostic, hs]

/-- Diagnostics of scripts that fail as they run point into their file, if they blame anything. -/
theorem RuntimeError.pointsInto {source : SourceFile} {p : Program} {natives : Registry σ}
    {config : Config} {h : σ} {e : RuntimeError} {s : Span}
    (hsize : source.text.utf8ByteSize < 2 ^ 32 - 1) (hp : Program.ofText source.text = .ok p)
    (he : ((Interpreter.mk p natives config).run h).result = .error e) (hs : e.span? = some s) :
    (e.diagnostic source).PointsInto source := by
  obtain ⟨row, imports, functions, hf, hprogram, hdefinitions⟩ := exists_layout_of_ofText hsize hp
  obtain ⟨t, ht, hstart⟩ := Interpreter.startsAmong hprogram hdefinitions he s hs
  have hreaches := hf.reaches ((List.takeWhile_prefix _).subset ht)
  rw [diagnostic_of_span? hs]
  exact Diagnostic.pointsInto_of_reaches hsize (hstart ▸ hreaches) rfl

/-- The codes of scripts that cannot be read. -/
theorem CompileError.code_mem (e : CompileError) (source : SourceFile) :
    (e.diagnostic source).code.number ∈ [100, 101, 102, 200, 201, 300, 301] := by
  cases e with
  | scan e =>
    change e.fault.code.number ∈ _
    cases e.fault <;> simp [LexicalFault.code, ErrorCode.unexpectedCharacter,
      ErrorCode.unterminatedString, ErrorCode.invalidEscape]
  | parse e =>
    change e.code.number ∈ _
    cases e <;> simp [ParseError.code, ErrorCode.unexpectedToken, ErrorCode.nestingLimit,
      ErrorCode.duplicateFunction, ErrorCode.duplicateVariable]

/-- The codes of scripts that fail as they run. -/
theorem RuntimeError.code_mem (e : RuntimeError) (source : SourceFile) :
    (e.diagnostic source).code.number ∈ [301, 302, 400, 401, 402, 500, 600, 700, 800, 801] := by
  have hcode : (e.diagnostic source).code = e.code := by
    rw [diagnostic]
    cases e.span? <;> rfl
  rw [hcode]
  cases e <;> simp [code, ErrorCode.duplicateVariable, ErrorCode.undeclaredVariable,
    ErrorCode.unknownFunction, ErrorCode.unknownModule, ErrorCode.unknownNativeFunction,
    ErrorCode.arityMismatch, ErrorCode.typeMismatch, ErrorCode.entryPoint, ErrorCode.nativeFailure,
    ErrorCode.callDepth]

theorem ScriptError.code_bounds (e : ScriptError) (source : SourceFile) :
    100 ≤ (e.diagnostic source).code.number.toNat ∧
      (e.diagnostic source).code.number.toNat < 900 := by
  have hmem : (e.diagnostic source).code.number ∈ [100, 101, 102, 200, 201, 300, 301] ∨
      (e.diagnostic source).code.number ∈
        [301, 302, 400, 401, 402, 500, 600, 700, 800, 801] := by
    cases e with
    | compile e => exact .inl (e.code_mem source)
    | runtime e => exact .inr (e.code_mem source)
  generalize (e.diagnostic source).code.number = n at *
  rcases hmem with hmem | hmem <;> fin_cases hmem <;> decide

/-- A diagnostic names its file, and has the category that its code belongs to. -/
theorem ScriptError.diagnostic_consistent (e : ScriptError) (source : SourceFile) :
    (e.diagnostic source).file = source.name ∧
      ∀ c : Category, c.hundreds = (e.diagnostic source).code.number.toNat / 100 ↔
        c = (e.diagnostic source).category := by
  have hquoting : (e.diagnostic source).file = source.name ∧
      (e.diagnostic source).category = (e.diagnostic source).code.category := by
    rcases e with (e | e) | e
    · exact ⟨rfl, rfl⟩
    · exact ⟨rfl, rfl⟩
    · rw [diagnostic, RuntimeError.diagnostic]
      cases e.span? <;> exact ⟨rfl, rfl⟩
  obtain ⟨hlow, hhigh⟩ := e.code_bounds source
  refine ⟨hquoting.1, fun c => ?_⟩
  rw [hquoting.2]
  exact ErrorCode.hundreds_eq_iff hlow hhigh

/-- A script that fails before it runs was not read as a program. -/
theorem ofText_of_runScript {source : SourceFile} {natives : Registry σ} {config : Config} {h : σ}
    {e : CompileError} (he : (runScript source natives config h).result = .error (.compile e)) :
    Program.ofText source.text = .error e := by
  unfold runScript at he
  split at he
  · rename_i err hread
    cases he
    exact hread
  · rename_i p hp
    replace he : Except.mapError ScriptError.runtime
        ((Interpreter.mk p natives config).run h).result = .error (.compile e) := he
    cases hr : ((Interpreter.mk p natives config).run h).result with
    | ok v => simp [hr, Except.mapError] at he
    | error err => simp [hr, Except.mapError] at he

/-- **Diagnostics are consistent with their file and their stage.** The diagnostic of a script that
fails names its file, has the one category that the hundreds of its code belong to, and has one of
the codes of the stage in which the script fails. A missing entry point is told at the start of the
file, without a line. Every other diagnostic points to a place in the file and quotes the line of
it. -/
theorem runScript_diagnostic {source : SourceFile} {natives : Registry σ} {config : Config} {h : σ}
    {e : ScriptError} (hsize : source.text.utf8ByteSize < 2 ^ 32 - 1)
    (he : (runScript source natives config h).result = .error e) :
    let d := e.diagnostic source
    d.file = source.name ∧
      (∀ c : Category, c.hundreds = d.code.number.toNat / 100 ↔ c = d.category) ∧
      (match e with
        | .compile _ => d.code.number ∈ [100, 101, 102, 200, 201, 300, 301]
        | .runtime _ => d.code.number ∈ [301, 302, 400, 401, 402, 500, 600, 700, 800, 801]) ∧
      (match e with
        | .runtime (.missingEntryPoint _) => d.span = .point .first ∧ d.sourceLine = ""
        | _ => d.PointsInto source) := by
  obtain ⟨hfile, hcategory⟩ := e.diagnostic_consistent source
  cases e with
  | compile e =>
    exact ⟨hfile, hcategory, e.code_mem source,
      CompileError.pointsInto hsize (ofText_of_runScript he)⟩
  | runtime e =>
    obtain ⟨p, hp, hrun⟩ := exists_of_runScript he
    refine ⟨hfile, hcategory, e.code_mem source, ?_⟩
    cases e with
    | missingEntryPoint name => exact ⟨rfl, rfl⟩
    | _ => exact RuntimeError.pointsInto hsize hp hrun rfl

set_option maxRecDepth 2000 in
/-- A carriage return is left out of the line that is quoted. -/
theorem runScript_diagnostic_small :
    let source : SourceFile := ⟨"small", "func main() \x7b\n x \r\n\x7d"⟩
    let e : ScriptError := .runtime (.undeclaredVariable "x" (.point ⟨2, 2⟩))
    (runScript source .empty default ()).result = .error e ∧
      (e.diagnostic source).sourceLine = " x " ∧ (e.diagnostic source).PointsInto source := by
  intro source e
  have hrun : (runScript source .empty default ()).result = .error e := by cbv
  obtain ⟨-, -, -, hpoints⟩ := runScript_diagnostic (by decide) hrun
  exact ⟨hrun, by decide +kernel, hpoints⟩

end Scriptlet
