import Scriptlet.Proofs.Grammar.Expression

/-!
# Chains of operators

An expression is a chain: operands, which are calls or primaries, with operators between them. A
chain has no shape of its own. `Chain.tree` gives it one, in which everything behind an operator is
its right operand, and this is the tree that is read from the tokens of the chain.

## Main definitions

* `Chain` — operands with operators between them
* `Chain.tree` — a chain as an expression
* `Grammar.SpellsChain` — the chains that tokens spell

## Main results

* `Grammar.SpellsChain.tree` — a chain that tokens spell is an expression of the grammar
* `Reader.exists_chain` — whatever is read as an expression is a chain
* `Reader.eq_tree` — and it is read as the tree of that chain
-/

namespace Scriptlet

/-- An operand with the operator behind it. -/
structure Link where
  operand : Expr
  op : Operator
  opSpan : Span

/-- Operands with operators between them: `a - f(b) * c`. -/
structure Chain where
  links : List Link
  last : Expr

namespace Link

/-- The operator of a link between its operand and an expression behind it. -/
def tree (l : Link) (rhs : Expr) : Expr :=
  .binary l.op.level l.operand l.op l.opSpan rhs (l.operand.span.merge rhs.span)

end Link

namespace Chain

/-- A chain as an expression: what stands behind an operator is its right operand. -/
def tree (c : Chain) : Expr := c.links.foldr Link.tree c.last

/-- A chain with one more link in front. -/
def cons (l : Link) (c : Chain) : Chain := { c with links := l :: c.links }

theorem tree_cons (l : Link) (c : Chain) : (cons l c).tree = l.tree c.tree := rfl

end Chain

namespace Grammar

/-- The tokens of operands with the tokens of operators between them. -/
inductive SpellsChain : List Token → Chain → Prop
  | last {ts e} (h : IsOperand IsExpression ts e) : SpellsChain ts ⟨[], e⟩
  | link {ts e t op level us c} (he : IsOperand IsExpression ts e)
      (ht : IsOperator t.kind op level) (hc : SpellsChain us c) :
      SpellsChain (ts ++ t :: us) (.cons ⟨e, op, t.span⟩ c)

/-- A chain stands for its tree. -/
theorem SpellsChain.tree {ts : List Token} {c : Chain} (h : SpellsChain ts c) :
    IsExpression ts c.tree := by
  induction h with
  | last h => exact .operand h
  | link he ht _ ih =>
    obtain ⟨-, rfl⟩ := isOperator_iff.1 ht
    exact .binary he ht ih

/-- A row of tokens is at most one expression. -/
theorem IsExpression.unique {ts : List Token} {e e' : Expr} (h : IsExpression ts e)
    (h' : IsExpression ts e') : e = e' := by
  have hread : ∀ {x}, IsExpression ts x → x.nesting ≤ max e.nesting e'.nesting →
      Reader.expression (max e.nesting e'.nesting) ts = .ok (x, []) := by
    intro x hx hle
    rw [← List.append_nil ts]
    exact (Reader.expression_reads _).complete ⟨hx, hle⟩ ⟨rfl, by simp [nextToken, Token.endOfFile]⟩
  have heq := (hread h (Nat.le_max_left _ _)).symm.trans (hread h' (Nat.le_max_right _ _))
  exact congrArg Prod.fst (Except.ok.inj heq)

end Grammar

namespace Reader

open Grammar

/-- What is read as an operand is one, whatever follows. -/
theorem isOperand_of_operand {n : Nat} {ts rest : List Token} {e : Expr}
    (h : operand (expression n) ts = .ok (e, rest)) :
    ∃ us, ts = us ++ rest ∧ IsOperand IsExpression us e := by
  rcases operand_eq_ok h with ⟨t, rfl, ht⟩ | ⟨name, x, lparen, us, args, rparen, rfl, hname, hl, hr,
    ha, rfl⟩
  · exact ⟨[t], rfl, .primary ht⟩
  · obtain ⟨vs, rfl, hargs⟩ := (arguments_reads (expression_reads n) fun h => h.1.head).sound ha hr
    have hid : IsIdentifier [name] ⟨x, name.span⟩ := ⟨name.lexeme, by rw [← hname]⟩
    exact ⟨[name] ++ lparen :: (vs ++ [rparen]), by simp,
      .call hid hl (hargs.mono fun _ _ _ h => h.1) hr⟩

/-- **What is read as an expression is a chain**, and it is read as the tree of this chain. -/
theorem exists_chain : ∀ {budget : Nat} {ts rest : List Token} {e : Expr},
    expression budget ts = .ok (e, rest) →
      ∃ us c, ts = us ++ rest ∧ SpellsChain us c ∧ e = c.tree := by
  intro budget
  induction budget with
  | zero =>
    intro ts rest e h
    simp [expression, bind_apply] at h
  | succ budget ih =>
    intro ts rest e h
    rw [expression_succ] at h
    obtain ⟨lhs, mid, ho, -⟩ := bind_eq_ok_iff.1 h
    obtain ⟨us, rfl, hlhs⟩ := isOperand_of_operand ho
    cases hop : Operator.ofKind? (nextToken mid).kind with
    | none =>
      rw [rightFold_of_none ho hop] at h
      obtain ⟨rfl, rfl⟩ : lhs = e ∧ mid = rest := by simpa using h
      exact ⟨us, ⟨[], lhs⟩, rfl, .last hlhs, rfl⟩
    | some op =>
      rw [rightFold_of_some ho hop] at h
      obtain ⟨t, vs, rfl, -⟩ := exists_cons_of_nextToken rfl (Operator.ne_of_ofKind? hop rfl)
      cases hr : expression budget vs with
      | error _ => simp [hr] at h
      | ok q =>
        obtain ⟨rhs, last⟩ := q
        obtain ⟨rfl, rfl⟩ := by simpa [hr] using h
        obtain ⟨ws, c, rfl, hc, rfl⟩ := ih hr
        exact ⟨us ++ t :: ws, .cons ⟨lhs, op, t.span⟩ c, by simp,
          .link hlhs (isOperator_iff.2 ⟨hop, rfl⟩) hc, rfl⟩

/-- However the tokens of an expression are taken for a chain, the tree of the chain is what was
read. -/
theorem eq_tree {budget : Nat} {us rest : List Token} {e : Expr} {c : Chain}
    (h : expression budget (us ++ rest) = .ok (e, rest)) (hc : SpellsChain us c) : e = c.tree := by
  obtain ⟨vs, c', hvs, hc', rfl⟩ := exists_chain h
  obtain rfl : us = vs := List.append_cancel_right hvs
  exact hc'.tree.unique hc.tree

end Reader

end Scriptlet
