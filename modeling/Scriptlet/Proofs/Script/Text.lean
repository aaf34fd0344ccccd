import Scriptlet.Proofs.Expr.Text
import Scriptlet.Proofs.Grammar.Subphrase
import Scriptlet.Proofs.Script.Blame
import Scriptlet.Proofs.Token.Spelling

/-!
# Texts of expressions in programs

Where expressions were read from source text, their nodes are what their texts show: the level of a
node is that of its operator, and its names are words that were not reserved. So two expressions of
programs have the same text exactly if they are the same, wherever they stand.

## Main definitions

* `Program.HasExpr` — an expression is part of a statement of a program

## Main results

* `Program.same_text_iff` — expressions of programs are told apart by their texts
-/

namespace Scriptlet

open Grammar

/-- An expression that is part of some statement of a program. -/
def Program.HasExpr (p : Program) (e : Expr) : Prop :=
  ∃ name f, p.get? name = some (.script f) ∧ ∃ s ∈ f.body, e ∈ s.value.parts

/-- No number in an expression is too large. -/
def Expr.FiniteNumbers (e : Expr) : Prop := ∀ x span, .number x span ∈ e.parts → x.isFinite

theorem IsLexeme.isName {name : String} {lexeme : List Char}
    (h : IsLexeme (.identifier name) lexeme) : IsName name := by
  generalize hkind : Token.Kind.identifier name = kind at h
  cases spells_iff.2 h with
  | newline | symbol | number | keyword | string => cases hkind
  | @identifier c cs hw hk =>
    cases hkind
    obtain ⟨hc, hw⟩ := isWord_iff.1 hw
    refine ⟨c, cs, String.toList_ofList, hc, hw, fun k heq => hk k ?_⟩
    rw [heq, String.toList_ofList]

theorem Operator.level_eq_of_isExpression {ts : List Token} {level : Level} {lhs rhs : Expr}
    {op : Operator} {opSpan span : Span}
    (h : IsExpression ts (.binary level lhs op opSpan rhs span)) : level = op.level := by
  cases h with
  | operand h =>
    cases h with
    | primary h => cases h
  | binary _ ht _ => exact (isOperator_iff.1 ht).2.symm

section

variable {ts : List Token} {e : Expr}

/-- A node that was read from lexemes is legible, if it is no number that is too large. -/
theorem legible_of_isExpression (hts : ∀ t ∈ ts, IsLexeme t.kind t.lexeme.toList)
    (hx : ∀ x span, e = .number x span → x.isFinite) (h : IsExpression ts e) : e.Legible := by
  cases e with
  | binary => exact Operator.level_eq_of_isExpression h
  | number => exact hx _ _ rfl
  | bool | string => trivial
  | call =>
    obtain ⟨lexeme, lparen, us, rparen, rfl, -⟩ := h.eq_call
    exact (hts _ List.mem_cons_self).isName
  | identifier =>
    obtain ⟨lexeme, rfl⟩ := h.eq_identifier
    exact (hts _ List.mem_cons_self).isName

theorem legible_of_inside (hts : ∀ t ∈ ts, IsLexeme t.kind t.lexeme.toList)
    (hx : e.FiniteNumbers) (h : Inside IsExpression ts e) : ∀ d ∈ e.parts, d.Legible := by
  intro d hd
  obtain ⟨us, hus, hd'⟩ := h.trans fun us h => h.inside d hd
  refine legible_of_isExpression (fun t ht => hts t (hus.subset ht)) ?_ hd'
  rintro x span rfl
  exact hx x span hd

end

namespace Program

/-- The tokens of a program that was read from text are lexemes. -/
theorem exists_lexemes_of_ofText {text : String} {p : Program} (hp : Program.ofText text = .ok p) :
    ∃ ts imports functions, IsProgram ts imports functions ∧
      p.ConsistsOf (definitionsOf imports functions) ∧
      ∀ t ∈ ts, IsLexeme t.kind t.lexeme.toList := by
  obtain ⟨ts, hscan, hparse⟩ := exists_scan_of_ofText hp
  obtain ⟨row, hrow, rfl, -⟩ := scanFrom_sound hscan
  obtain ⟨imports, functions, hprogram, -, -, hdefinitions⟩ := exists_of_ofTokens hparse
  refine ⟨_, imports, functions, hprogram, hdefinitions, fun t ht => ?_⟩
  obtain ⟨s, hs, rfl⟩ := List.mem_map.1 ((List.takeWhile_prefix _).subset ht)
  obtain ⟨init, blanks, span, rfl, hinit⟩ := hrow.exists_concat
  obtain hs | hs := List.mem_append.1 hs
  · exact (hinit s hs).2
  · obtain rfl := List.mem_singleton.1 hs
    exact absurd rfl (hprogram.noEnd _ ht)

theorem HasExpr.inside {p : Program} {e : Expr} (he : p.HasExpr e) {ts : List Token}
    {imports : List Import} {functions : List ScriptFunction}
    (hprogram : IsProgram ts imports functions)
    (hp : p.ConsistsOf (definitionsOf imports functions)) : Inside IsExpression ts e := by
  obtain ⟨name, f, hf, s, hs, he⟩ := he
  obtain ⟨hmem, -⟩ := hp.of_get? hf
  have hfunction : f ∈ functions := by simpa [definitionsOf] using hmem
  exact (((hprogram.inside_function f hfunction).trans fun _ h => h.inside_body s hs).trans
    fun _ h => h.inside_value).trans fun _ h => h.inside e he

theorem legible_of_ofText {text : String} {p : Program} (hp : Program.ofText text = .ok p)
    {e : Expr} (he : p.HasExpr e) (hx : e.FiniteNumbers) : ∀ d ∈ e.parts, d.Legible := by
  obtain ⟨ts, imports, functions, hprogram, hdefinitions, hts⟩ := exists_lexemes_of_ofText hp
  exact legible_of_inside hts hx (he.inside hprogram hdefinitions)

/-- **The text of an expression shows exactly its tree.** Take an expression of one program and an
expression of another, each program read from some source text, and all their numbers finite. Their
texts are the same exactly if the expressions are the same but for where their parts stand. -/
theorem same_text_iff {text text' : String} {p p' : Program} {e e' : Expr}
    (hp : Program.ofText text = .ok p) (hp' : Program.ofText text' = .ok p') (he : p.HasExpr e)
    (he' : p'.HasExpr e') (hx : e.FiniteNumbers) (hx' : e'.FiniteNumbers) :
    e.text = e'.text ↔ e.spanless = e'.spanless :=
  Expr.text_eq_iff (legible_of_ofText hp he hx) (legible_of_ofText hp' he' hx')

set_option maxRecDepth 4000 in
/-- Blanks make no difference to the text of an expression. -/
theorem same_text_iff_small :
    let text := "func f(a) \x7b\n a-\"x\"\n a - \"x\"\n\x7d"
    let on (line start stop : UInt32) : Span := ⟨⟨line, start⟩, ⟨line, stop⟩⟩
    let e := Expr.binary .term (.identifier "a" (on 2 2 2)) .sub (on 2 3 3)
      (.string "x" (on 2 4 6)) (on 2 2 6)
    let e' := Expr.binary .term (.identifier "a" (on 3 2 2)) .sub (on 3 4 4)
      (.string "x" (on 3 6 8)) (on 3 2 8)
    ∃ p, Program.ofText text = .ok p ∧ p.HasExpr e ∧ p.HasExpr e' ∧ e.FiniteNumbers ∧
      e'.FiniteNumbers ∧ e.text = e'.text ∧ (e.text = e'.text ↔ e.spanless = e'.spanless) := by
  intro text on e e'
  let f : ScriptFunction := ⟨⟨"f", on 1 6 6⟩, [⟨"a", on 1 8 8⟩],
    [.expression e (on 2 2 6), .expression e' (on 3 2 8)], ⟨⟨1, 1⟩, ⟨4, 1⟩⟩⟩
  have hp : Program.ofText text = .ok (.ofList [("f", .script f)]) := by cbv
  have he : HasExpr (.ofList [("f", .script f)]) e := ⟨"f", f, rfl, _, .head _, e.self_mem_parts⟩
  have he' : HasExpr (.ofList [("f", .script f)]) e' :=
    ⟨"f", f, rfl, _, .tail _ (.head _), e'.self_mem_parts⟩
  have hx : e.FiniteNumbers := by
    intro x span hmem
    simp [e, Expr.parts] at hmem
  have hx' : e'.FiniteNumbers := by
    intro x span hmem
    simp [e', Expr.parts] at hmem
  exact ⟨_, hp, he, he', hx, hx', rfl, same_text_iff hp hp he he' hx hx'⟩

end Program

end Scriptlet
