import Mathlib.Data.List.Infix
import Scriptlet.Proofs.Expr.Parts
import Scriptlet.Proofs.Grammar.Program

/-!
# Phrases inside phrases

Everything that a program is made of has a phrase of its own, which is a stretch of the tokens of
the program: every definition has its name, every function its statements, and every part of an
expression is an expression there. What is known of how a part was read can so be looked up in the
one rule of the grammar that it comes from.

In an expression, parentheses match.

## Main definitions

* `Grammar.Inside` — something has a phrase inside a row of tokens
* `Grammar.Balanced` — parentheses match

## Main results

* `Grammar.IsExpression.inside` — the parts of an expression are expressions inside it
* `Grammar.IsProgram.inside_name`, `inside_function` — so are the names and functions of a program
* `Grammar.IsExpression.balanced` — parentheses match in expressions
-/

namespace Scriptlet

namespace Grammar

variable {α β : Type}

/-- Something has a phrase that is a stretch of a row of tokens. -/
def Inside (item : List Token → α → Prop) (ts : List Token) (a : α) : Prop :=
  ∃ us, us <:+: ts ∧ item us a

section

variable {item : List Token → α → Prop} {item' : List Token → β → Prop} {ts us : List Token} {a : α}
  {b : β} {as : List α}

theorem Inside.self (h : item ts a) : Inside item ts a := ⟨ts, List.infix_rfl, h⟩

theorem Inside.mono (h : Inside item us a) (hus : us <:+: ts) : Inside item ts a := by
  obtain ⟨vs, hvs, ha⟩ := h
  exact ⟨vs, hvs.trans hus, ha⟩

/-- A phrase inside one that is inside a row is inside that row. -/
theorem Inside.trans (h : Inside item ts a) (hi : ∀ us, item us a → Inside item' us b) :
    Inside item' ts b := by
  obtain ⟨us, hus, ha⟩ := h
  exact (hi us ha).mono hus

theorem CommaSeparated.inside (h : CommaSeparated item ts as) : ∀ a ∈ as, Inside item ts a := by
  induction h with
  | one h => exact List.forall_mem_singleton.2 (.self h)
  | @more ts a comma us as h _ _ ih =>
    have hfirst : ts <:+: ts ++ comma :: us := List.infix_append_left
    have hrest : us <:+: ts ++ comma :: us :=
      List.infix_append_of_infix_right (List.infix_cons List.infix_rfl)
    exact List.forall_mem_cons.2 ⟨(Inside.self h).mono hfirst, fun a ha => (ih a ha).mono hrest⟩

theorem Listed.inside (h : Listed item ts as) : ∀ a ∈ as, Inside item ts a := by
  cases h with
  | none => exact List.forall_mem_nil _
  | some h => exact h.inside

theorem Lines.inside (h : Lines item ts as) : ∀ a ∈ as, Inside item ts a := by
  induction h with
  | nil => exact List.forall_mem_nil _
  | @cons ts a us vs as h _ _ ih =>
    have hfirst : ts <:+: ts ++ (us ++ vs) := List.infix_append_left
    have hrest : vs <:+: ts ++ (us ++ vs) :=
      List.infix_append_of_infix_right List.infix_append_right
    exact List.forall_mem_cons.2 ⟨(Inside.self h).mono hfirst, fun a ha => (ih a ha).mono hrest⟩

end

/-! ### Expressions -/

theorem IsOperand.inside {ts : List Token} {e : Expr}
    (h : IsOperand (fun us e => IsExpression us e ∧ ∀ d ∈ e.parts, Inside IsExpression us d) ts e) :
    ∀ d ∈ e.parts, Inside IsExpression ts d := by
  have hself : Inside IsExpression ts e := .self (.operand (h.mono fun _ _ h => h.1))
  cases h with
  | primary h => cases h <;> exact List.forall_mem_singleton.2 hself
  | @call ts name lparen us args rparen hn hl ha hr =>
    have hargs : us <:+: ts ++ lparen :: (us ++ [rparen]) :=
      List.infix_append_of_infix_right (List.infix_cons List.infix_append_left)
    refine Expr.forall_mem_parts_call.2 ⟨hself, fun e he d hd => ?_⟩
    exact ((ha.inside e he).trans fun us h => h.2 d hd).mono hargs

/-- **The parts of an expression are expressions inside it.** -/
theorem IsExpression.inside {ts : List Token} {e : Expr} (h : IsExpression ts e) :
    ∀ d ∈ e.parts, Inside IsExpression ts d := by
  refine IsExpression.induct (P := fun ts e => ∀ d ∈ e.parts, Inside IsExpression ts d)
    (fun h => h.inside) ?_ h
  intro ts lhs t op level us rhs hl ht hr ih
  have hfirst : ts <:+: ts ++ t :: us := List.infix_append_left
  have hrest : us <:+: ts ++ t :: us :=
    List.infix_append_of_infix_right (List.infix_cons List.infix_rfl)
  exact Expr.forall_mem_parts_binary.2 ⟨.self (.binary (hl.mono fun _ _ h => h.1) ht hr),
    fun d hd => (hl.inside d hd).mono hfirst, fun d hd => (ih d hd).mono hrest⟩

/-! ### The rules that parts come from -/

theorem IsExpression.eq_identifier {ts : List Token} {name : String} {span : Span}
    (h : IsExpression ts (.identifier name span)) : IsIdentifier ts ⟨name, span⟩ := by
  cases h with
  | operand h =>
    cases h with
    | @primary t _ h =>
      cases h with
      | identifier hk =>
        obtain ⟨_, lexeme, _⟩ := t
        obtain rfl := hk
        exact ⟨lexeme, rfl⟩

theorem IsExpression.exists_operator {ts : List Token} {level : Level} {lhs rhs : Expr}
    {op : Operator} {opSpan span : Span}
    (h : IsExpression ts (.binary level lhs op opSpan rhs span)) :
    ∃ t ∈ ts, IsOperator t.kind op level ∧ t.span = opSpan := by
  cases h with
  | operand h =>
    cases h with
    | primary h => cases h
  | binary _ ht _ => exact ⟨_, by simp, ht, rfl⟩

/-- A call is a name, and its arguments between parentheses. -/
theorem IsExpression.eq_call {ts : List Token} {callee : Identifier} {args : List Expr}
    {span : Span} (h : IsExpression ts (.call callee args span)) :
    ∃ lexeme lparen us rparen,
      ts = ⟨.identifier callee.name, lexeme, callee.span⟩ :: lparen :: (us ++ [rparen]) ∧
      lparen.kind = .symbol .lparen ∧ rparen.kind = .symbol .rparen ∧
      Listed IsExpression us args ∧ span = callee.span.merge rparen.span := by
  cases h with
  | operand h =>
    cases h with
    | primary h => cases h
    | call hn hl ha hr =>
      obtain ⟨lexeme, rfl⟩ := hn
      exact ⟨lexeme, _, _, _, rfl, hl, hr, ha, rfl⟩

/-! ### Programs -/

theorem IsStatement.inside_value {ts : List Token} {s : Stmt} (h : IsStatement ts s) :
    Inside IsExpression ts s.value := by
  cases h with
  | @result t ts value ht hv => exact (Inside.self hv).mono (List.infix_cons List.infix_rfl)
  | @declaration ts name t us value hn ht hv =>
    exact (Inside.self hv).mono
      (List.infix_append_of_infix_right (List.infix_cons List.infix_rfl))
  | expression hv => exact .self hv

theorem IsStatement.inside_name {ts : List Token} {name : Identifier} {value : Expr} {span : Span}
    (h : IsStatement ts (.declaration name value span)) : Inside IsIdentifier ts name := by
  cases h with
  | declaration hn ht hv => exact (Inside.self hn).mono List.infix_append_left

theorem IsBody.inside {ts : List Token} {ss : List Stmt} (h : IsBody ts ss) :
    ∀ s ∈ ss, Inside IsStatement ts s := by
  induction h with
  | blank _ => exact List.forall_mem_nil _
  | last _ hs => exact List.forall_mem_singleton.2 ((Inside.self hs).mono List.infix_append_right)
  | @line ts us s t vs ss _ hs _ _ ih =>
    have hfirst : us <:+: ts ++ (us ++ t :: vs) := List.infix_append' ..
    have hrest : vs <:+: ts ++ (us ++ t :: vs) :=
      List.infix_append_of_infix_right
        (List.infix_append_of_infix_right (List.infix_cons List.infix_rfl))
    exact List.forall_mem_cons.2 ⟨(Inside.self hs).mono hfirst, fun s hs => (ih s hs).mono hrest⟩

namespace IsFunction

variable {ts : List Token} {f : ScriptFunction}

theorem inside_name (h : IsFunction ts f) : Inside IsIdentifier ts f.name := by
  obtain ⟨-, hn, -, -, -, -, -, -, -⟩ := h
  exact (Inside.self hn).mono (List.infix_cons List.infix_append_left)

theorem inside_params (h : IsFunction ts f) : ∀ p ∈ f.params, Inside IsIdentifier ts p := by
  obtain ⟨-, -, -, hp, -, -, -, -, -⟩ := h
  intro p hmem
  exact (hp.inside p hmem).mono (List.infix_cons
    (List.infix_append_of_infix_right (List.infix_cons List.infix_append_left)))

theorem inside_body (h : IsFunction ts f) : ∀ s ∈ f.body, Inside IsStatement ts s := by
  obtain ⟨-, -, -, -, -, -, -, hb, -⟩ := h
  intro s hmem
  exact (hb.inside s hmem).mono (List.infix_cons (List.infix_append_of_infix_right
    (List.infix_cons (List.infix_append_of_infix_right
      (List.infix_cons (List.infix_cons (List.infix_cons List.infix_append_left)))))))

end IsFunction

theorem IsImport.inside_name {ts : List Token} {line : List Import} (h : IsImport ts line) :
    ∀ i ∈ line, Inside IsIdentifier ts i.name := by
  obtain ⟨-, -, hn, -, -, -⟩ := h
  refine List.forall_mem_map.2 fun name hname => (hn.inside name hname).mono ?_
  exact List.infix_cons (List.infix_cons List.infix_append_left)

namespace IsProgram

variable {ts : List Token} {imports : List Import} {functions : List ScriptFunction}

theorem inside_function (h : IsProgram ts imports functions) :
    ∀ f ∈ functions, Inside IsFunction ts f := by
  obtain ⟨-, -, hf⟩ := h
  intro f hmem
  exact (hf.inside f hmem).mono
    (List.infix_append_of_infix_right List.infix_append_right)

/-- Every definition of a program is named inside it. -/
theorem inside_name (h : IsProgram ts imports functions) :
    ∀ d ∈ definitionsOf imports functions, Inside IsIdentifier ts d.name := by
  have hfunctions := h.inside_function
  obtain @⟨ts, us, vs, lines, fs, -, hi, -⟩ := h
  refine List.forall_mem_append.2 ⟨List.forall_mem_map.2 fun i hmem => ?_,
    List.forall_mem_map.2 fun f hmem => (hfunctions f hmem).trans fun _ h => h.inside_name⟩
  obtain ⟨line, hline, hmem⟩ := List.mem_flatten.1 hmem
  have hus : us <:+: ts ++ (us ++ vs) := List.infix_append' ..
  exact ((hi.inside line hline).trans fun _ h => h.inside_name i hmem).mono hus

end IsProgram

/-! ### Parentheses -/

/-- Parentheses match. -/
inductive Balanced : List Token → Prop
  | nil : Balanced []
  | cons {t ts} (hl : t.kind ≠ .symbol .lparen) (hr : t.kind ≠ .symbol .rparen)
      (h : Balanced ts) : Balanced (t :: ts)
  | group {lparen us rparen vs} (hl : lparen.kind = .symbol .lparen) (hu : Balanced us)
      (hr : rparen.kind = .symbol .rparen) (hv : Balanced vs) :
      Balanced (lparen :: (us ++ rparen :: vs))

theorem Balanced.append {us vs : List Token} (hu : Balanced us) (hv : Balanced vs) :
    Balanced (us ++ vs) := by
  induction hu with
  | nil => exact hv
  | cons hl hr _ ih => exact .cons hl hr ih
  | group hl hu hr _ _ ih =>
    rw [List.cons_append, List.append_assoc, List.cons_append]
    exact .group hl hu hr ih

theorem CommaSeparated.balanced {item : List Token → α → Prop}
    (hi : ∀ ts a, item ts a → Balanced ts) {ts : List Token} {as : List α}
    (h : CommaSeparated item ts as) : Balanced ts := by
  induction h with
  | one h => exact hi _ _ h
  | more h hc _ ih => exact (hi _ _ h).append (.cons (by simp [hc]) (by simp [hc]) ih)

theorem Listed.balanced {item : List Token → α → Prop} (hi : ∀ ts a, item ts a → Balanced ts)
    {ts : List Token} {as : List α} (h : Listed item ts as) : Balanced ts := by
  cases h with
  | none => exact .nil
  | some h => exact h.balanced hi

theorem IsOperand.balanced {expression : List Token → Expr → Prop}
    (he : ∀ ts e, expression ts e → Balanced ts) {ts : List Token} {e : Expr}
    (h : IsOperand expression ts e) : Balanced ts := by
  cases h with
  | primary h => cases h <;> exact .cons (by simp_all) (by simp_all) .nil
  | call hn hl ha hr =>
    obtain ⟨lexeme, rfl⟩ := hn
    exact .cons (by simp) (by simp) (.group hl (ha.balanced he) hr .nil)

/-- **Parentheses match in expressions.** -/
theorem IsExpression.balanced {ts : List Token} {e : Expr} (h : IsExpression ts e) :
    Balanced ts := by
  refine IsExpression.induct (P := fun ts _ => Balanced ts) ?_ ?_ h
  · intro ts e h
    exact h.balanced fun _ _ h => h.2
  · intro ts lhs t op level us rhs hl ht _ ih
    have hop : Balanced (t :: us) := .cons (ht.ne nofun) (ht.ne nofun) ih
    exact (hl.balanced fun _ _ h => h.2).append hop

end Grammar

end Scriptlet
