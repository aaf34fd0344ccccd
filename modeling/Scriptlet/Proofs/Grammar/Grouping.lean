import Scriptlet.Proofs.Expr.Parts
import Scriptlet.Proofs.Grammar.Expression

/-!
# How operators group

Three levels of operators suggest that some bind tighter than others. None does: reading level by
level gives what a reader without levels gives, for which all operators are alike. That reader takes
an operand and, if any operator follows, makes everything behind the operator its right operand.

Therefore a left operand is never an operator expression itself, and the level of a node says only
which operator it has.

## Main definitions

* `Reader.flatExpression` — reading without levels
* `Expr.Grouped` — how the operands of a node may look

## Main results

* `Reader.expression_grouping` — reading with levels is reading without them
-/

namespace Scriptlet

open Grammar

namespace Expr

/-- Whether an expression is an operator between two operands. -/
def isBinary : Expr → Bool
  | binary .. => true
  | _ => false

/-- If this node has an operator, then it stands on the level of the node, and the left operand has
none. -/
def Grouped : Expr → Prop
  | binary level lhs op _ _ _ => lhs.isBinary = false ∧ level = op.level
  | _ => True

end Expr

namespace Reader

/-- An expression that nests at most `budget` levels deep, read without levels of operators. -/
def flatExpression : (budget : Nat) → Reader Expr
  | 0 => do throw (.nestingLimit (← peek).span)
  | budget + 1 => rightFold (operand (flatExpression budget)) (flatExpression budget)

/-- The levels have no effect, however deep expressions may nest. -/
theorem expression_eq_flatExpression : ∀ budget, expression budget = flatExpression budget
  | 0 => rfl
  | budget + 1 => by rw [expression_succ, flatExpression, expression_eq_flatExpression budget]

/-! ### What nodes look like -/

section

variable {α : Type} {item : List α → Reader α} {P : α → Prop}

/-- What holds of every item that can be read holds of all items of a row. -/
theorem forall_mem_of_itemsWithin
    (hi : ∀ {earlier ts a rest}, item earlier ts = .ok (a, rest) → P a) :
    ∀ {rounds : Nat} {earlier as : List α} {ts rest : List Token},
      itemsWithin item rounds earlier ts = .ok (as, rest) → ∀ a ∈ as, P a := by
  intro rounds
  induction rounds with
  | zero =>
    intro earlier as ts rest h
    obtain ⟨rfl, -⟩ : [] = as ∧ ts = rest := by simpa [itemsWithin] using h
    exact List.forall_mem_nil P
  | succ rounds ih =>
    intro earlier as ts rest h
    obtain ⟨a, mid, ha, hmid⟩ := bind_eq_ok_iff.1 h
    rw [bind_apply, accept_apply] at hmid
    by_cases hk : (nextToken mid).kind = .symbol .comma
    · rw [if_pos hk] at hmid
      obtain ⟨as', last, has, hlast⟩ := bind_eq_ok_iff.1 hmid
      obtain ⟨rfl, -⟩ : a :: as' = as ∧ last = rest := by simpa using hlast
      exact List.forall_mem_cons.2 ⟨hi ha, ih has⟩
    · rw [if_neg hk] at hmid
      obtain ⟨rfl, -⟩ : [a] = as ∧ mid = rest := by simpa using hmid
      exact List.forall_mem_singleton.2 (hi ha)

end

variable {nested : Reader Expr} {P : Expr → Prop}

theorem forall_mem_of_arguments (hn : ∀ {ts e rest}, nested ts = .ok (e, rest) → P e)
    {ts rest : List Token} {args : List Expr} (h : arguments nested ts = .ok (args, rest)) :
    ∀ e ∈ args, P e := by
  rw [arguments, bind_of_eq_ok _ (sees_apply _ _)] at h
  split at h
  · obtain ⟨rfl, -⟩ : [] = args ∧ ts = rest := by simpa using h
    exact List.forall_mem_nil P
  · exact forall_mem_of_itemsWithin hn h

/-- An operand is no operator expression, and its nodes look as those of its arguments do. -/
theorem grouped_of_operand
    (hn : ∀ {ts e rest}, nested ts = .ok (e, rest) → ∀ x ∈ e.parts, x.Grouped)
    {ts rest : List Token} {e : Expr} (h : operand nested ts = .ok (e, rest)) :
    e.isBinary = false ∧ ∀ x ∈ e.parts, x.Grouped := by
  rcases operand_eq_ok h with ⟨t, -, ht⟩ | ⟨name, n, lparen, us, args, rparen, -, -, -, -, ha, rfl⟩
  · cases ht <;> exact ⟨rfl, List.forall_mem_singleton.2 trivial⟩
  · exact ⟨rfl, Expr.forall_mem_parts_call.2 ⟨trivial, forall_mem_of_arguments hn ha⟩⟩

theorem grouped_of_flatExpression : ∀ {budget : Nat} {ts rest : List Token} {e : Expr},
    flatExpression budget ts = .ok (e, rest) → ∀ x ∈ e.parts, x.Grouped := by
  intro budget
  induction budget with
  | zero =>
    intro ts rest e h
    simp [flatExpression, bind_apply] at h
  | succ budget ih =>
    intro ts rest e h
    rw [flatExpression] at h
    cases ho : operand (flatExpression budget) ts with
    | error _ => simp [rightFold, bind_apply, ho] at h
    | ok p =>
      obtain ⟨lhs, mid⟩ := p
      obtain ⟨hlhs, hparts⟩ := grouped_of_operand ih ho
      cases hop : Operator.ofKind? (nextToken mid).kind with
      | none =>
        rw [rightFold_of_none ho hop] at h
        obtain ⟨rfl, -⟩ : lhs = e ∧ mid = rest := by simpa using h
        exact hparts
      | some op =>
        rw [rightFold_of_some ho hop] at h
        cases hr : flatExpression budget mid.tail with
        | error _ => simp [hr] at h
        | ok q =>
          obtain ⟨rhs, last⟩ := q
          obtain ⟨rfl, -⟩ := by simpa [hr] using h
          exact Expr.forall_mem_parts_binary.2 ⟨⟨hlhs, rfl⟩, hparts, ih hr⟩

/-- **Operators have no precedence.** Reading an expression level by level is reading it without
levels: from any row of tokens and with any budget of nesting, both give the same expression and
leave the same tokens, or fail with the same error. So in every expression that is read, left
operands have no operator, and every node stands on the level of its operator. -/
theorem expression_grouping (budget : Nat) :
    expression budget = flatExpression budget ∧
      ∀ ts e rest, expression budget ts = .ok (e, rest) →
        ∀ level lhs op opSpan rhs span, .binary level lhs op opSpan rhs span ∈ e.parts →
          lhs.isBinary = false ∧ level = op.level := by
  refine ⟨expression_eq_flatExpression budget, ?_⟩
  intro ts e rest h level lhs op opSpan rhs span hx
  rw [expression_eq_flatExpression] at h
  exact grouped_of_flatExpression h _ hx

/-- In `a * b + c`, the looser operator belongs to the right operand of the tighter one. -/
theorem expression_grouping_small :
    let name (s : String) : Token := ⟨.identifier s, s, default⟩
    let symbol (s : Symbol) : Token := ⟨.symbol s, s.text, default⟩
    let ts : List Token := [name "a", symbol .star, name "b", symbol .plus, name "c"]
    expression 3 ts = flatExpression 3 ts ∧
      ∃ lhs op rhs, expression 3 ts = .ok (.binary .factor lhs op default rhs default, []) ∧
        lhs.isBinary = false ∧ op.level = .factor ∧ rhs.isBinary = true := by
  intro name symbol ts
  have h := expression_grouping 3
  have hread : expression 3 ts =
      .ok (.binary .factor (.identifier "a" default) .mul default
        (.binary .term (.identifier "b" default) .add default (.identifier "c" default) default)
        default, []) := rfl
  obtain ⟨hlhs, hlevel⟩ := h.2 _ _ _ hread _ _ _ _ _ _ (Expr.self_mem_parts _)
  exact ⟨congrFun h.1 ts, _, _, _, hread, hlhs, hlevel.symm, rfl⟩

end Reader

end Scriptlet
