import Scriptlet.Proofs.Grammar.Chain
import Scriptlet.Proofs.Run.Rules

/-!
# The order of effects in a chain

The tree of a chain nests to the right, and a node evaluates its left operand, its right operand and
then its operator. So all operands of a chain are evaluated before the first operator is applied,
from left to right, and the operators are applied from right to left: the value of the last operand
is folded with the values in front of it. Operators do nothing to the host and tell nothing, so what
a chain does is what its operands do.

## Main definitions

* `Chain.operands` — the operands of a chain, evaluated in order
* `foldLinks` — the operators of a chain, applied to the values of its operands
* `Chain.Orders` — an expression is evaluated in the order of a chain

## Main results

* `Chain.eval_tree` — a chain evaluates its operands and then folds their values
* `foldLinks_eq_error_iff` — which operator a fold fails at
* `Reader.expression_order` — whatever is read as an expression is evaluated as a chain
-/

namespace Scriptlet

variable {σ α β : Type}

namespace Run

theorem ofExcept_bind (r : Except RuntimeError α) (f : α → Except RuntimeError β) :
    (ofExcept (r >>= f) : Run σ β) = ofExcept r >>= fun a => ofExcept (f a) := by
  cases r <;> rfl

end Run

/-- The operators of links, each with the value in front of it, applied from right to left to what
stands behind them. -/
def foldLinks (links : List (Value × Link)) (last : Value) : Except RuntimeError Value :=
  links.foldrM (fun (a, l) b => Value.applyAt l.op a b l.opSpan) last

theorem foldLinks_cons (a : Value) (l : Link) (links : List (Value × Link)) (last : Value) :
    foldLinks ((a, l) :: links) last =
      foldLinks links last >>= fun b => Value.applyAt l.op a b l.opSpan :=
  List.foldrM_cons

theorem Value.applyAt_eq_error_iff {op : Operator} {a b : Value} {span : Span} {e : RuntimeError} :
    applyAt op a b span = .error e ↔
      operate? op a b = none ∧ e = .typeMismatch op a.kind b.kind span := by
  rw [applyAt]
  cases operate? op a b <;> simp [eq_comm]

/-- A fold fails at one operator: those to the right of it have a value, and this one is not defined
on its operands. What the operators to the left of it would do plays no part. -/
theorem foldLinks_eq_error_iff {links : List (Value × Link)} {last : Value} {e : RuntimeError} :
    foldLinks links last = .error e ↔
      ∃ before a l after b, links = before ++ (a, l) :: after ∧ foldLinks after last = .ok b ∧
        Value.operate? l.op a b = none ∧ e = .typeMismatch l.op a.kind b.kind l.opSpan := by
  induction links with
  | nil => simp [foldLinks, pure, Except.pure]
  | cons x links ih =>
    obtain ⟨a, l⟩ := x
    rw [foldLinks_cons]
    constructor
    · intro h
      cases hf : foldLinks links last with
      | error e' =>
        obtain rfl : e' = e := by simpa [hf, bind, Except.bind] using h
        obtain ⟨before, a', l', after, b, rfl, hb, hnone⟩ := ih.1 hf
        exact ⟨(a, l) :: before, a', l', after, b, rfl, hb, hnone⟩
      | ok b =>
        rw [hf] at h
        exact ⟨[], a, l, links, b, rfl, hf, Value.applyAt_eq_error_iff.1 h⟩
    · rintro ⟨before, a', l', after, b, hsplit, hb, hnone⟩
      cases before with
      | nil =>
        obtain ⟨⟨rfl, rfl⟩, rfl⟩ := by simpa using hsplit
        rw [hb]
        exact Value.applyAt_eq_error_iff.2 hnone
      | cons x before =>
        obtain ⟨rfl, rfl⟩ := List.cons.inj hsplit
        rw [ih.2 ⟨before, a', l', after, b, rfl, hb, hnone⟩]
        rfl

namespace Chain

/-- The operands of a chain, evaluated from left to right up to the first that fails. -/
def operands (c : Chain) (call : Caller σ) (scope : Scope) :
    Run σ (List (Value × Link) × Value) := do
  let links ← c.links.mapM fun l => (·, l) <$> l.operand.eval call scope
  let last ← c.last.eval call scope
  return (links, last)

variable (call : Caller σ) (scope : Scope)

theorem operands_cons (l : Link) (c : Chain) :
    (cons l c).operands call scope = do
      let a ← l.operand.eval call scope
      let p ← c.operands call scope
      return ((a, l) :: p.1, p.2) := by
  simp only [operands, cons, List.mapM_cons, bind_assoc, pure_bind, map_eq_pure_bind]

/-- **A chain evaluates its operands and then folds their values.** -/
theorem eval_tree (c : Chain) :
    c.tree.eval call scope =
      c.operands call scope >>= fun p => Run.ofExcept (foldLinks p.1 p.2) := by
  obtain ⟨links, last⟩ := c
  induction links with
  | nil =>
    simp only [operands, List.mapM_nil, pure_bind, bind_assoc]
    exact (bind_pure _).symm
  | cons l links ih =>
    show (cons l ⟨links, last⟩).tree.eval call scope =
      (cons l ⟨links, last⟩).operands call scope >>= _
    rw [tree_cons, Link.tree, Expr.eval, ih, operands_cons]
    simp only [bind_assoc, pure_bind, foldLinks_cons, Run.ofExcept_bind]

/-- What a chain does is what its operands do, and its value or error comes from the fold if no
operand fails. -/
theorem eval_tree_apply (c : Chain) (h : σ) :
    c.tree.eval call scope h =
      ⟨(c.operands call scope h).result.bind fun p => foldLinks p.1 p.2,
        (c.operands call scope h).host, (c.operands call scope h).events⟩ := by
  rw [eval_tree]
  exact Run.bind_ofExcept _ _ h

variable {call scope} {c : Chain} {h : σ}

/-- Where an operand fails, so does the chain. -/
theorem result_of_error {err : RuntimeError}
    (ho : (c.operands call scope h).result = .error err) :
    (c.tree.eval call scope h).result = .error err := by
  rw [eval_tree_apply, ho]
  rfl

/-- Where all operands have values, the chain ends as their fold does. -/
theorem result_of_ok {links : List (Value × Link)} {last : Value}
    (ho : (c.operands call scope h).result = .ok (links, last)) :
    (c.tree.eval call scope h).result = foldLinks links last := by
  rw [eval_tree_apply, ho]
  rfl

/-- An expression is evaluated in the order of a chain. -/
structure Orders (c : Chain) (e : Expr) (call : Caller σ) (scope : Scope) : Prop where
  /-- First the operands from left to right, then the operators from right to left. -/
  eval : e.eval call scope =
    c.operands call scope >>= fun p => Run.ofExcept (foldLinks p.1 p.2)
  /-- Whether or not an operator fails, all is done to the host that the operands do, -/
  host (h : σ) : (e.eval call scope h).host = (c.operands call scope h).host
  /-- and all is told that the operands tell. -/
  events (h : σ) : (e.eval call scope h).events = (c.operands call scope h).events
  /-- The first operand that fails ends it. -/
  operand {h : σ} {err : RuntimeError} (ho : (c.operands call scope h).result = .error err) :
    (e.eval call scope h).result = .error err
  /-- If an operator fails, then it is the first that does, coming from the right, and the error is
  located at its token. -/
  operator {h : σ} {links : List (Value × Link)} {last : Value}
    (ho : (c.operands call scope h).result = .ok (links, last)) (err : RuntimeError) :
    (e.eval call scope h).result = .error err ↔
      ∃ before a l after b, links = before ++ (a, l) :: after ∧ foldLinks after last = .ok b ∧
        Value.operate? l.op a b = none ∧ err = .typeMismatch l.op a.kind b.kind l.opSpan

theorem orders_tree (c : Chain) (call : Caller σ) (scope : Scope) :
    c.Orders c.tree call scope where
  eval := c.eval_tree call scope
  host h := by rw [eval_tree_apply]
  events h := by rw [eval_tree_apply]
  operand := result_of_error
  operator ho err := by rw [result_of_ok ho, foldLinks_eq_error_iff]

end Chain

namespace Reader

open Grammar

/-- **Operands run from left to right before any operator is applied, and operators apply from right
to left.** What is read as an expression is spelled by a chain of operands and operators, as long as
may be. However calls are made and whatever the variables are, it is evaluated in the order of this
chain: its operands one after the other up to the first that fails, and then the fold. -/
theorem expression_order {budget : Nat} {ts rest : List Token} {e : Expr}
    (h : expression budget ts = .ok (e, rest)) (call : Caller σ) (scope : Scope) :
    ∃ us, ts = us ++ rest ∧ (∃ c, SpellsChain us c) ∧
      ∀ c, SpellsChain us c → c.Orders e call scope := by
  obtain ⟨us, c, rfl, hc, -⟩ := exists_chain h
  refine ⟨us, rfl, ⟨c, hc⟩, fun c' hc' => ?_⟩
  rw [eq_tree h hc']
  exact c'.orders_tree call scope

/-- In `get("a") * true - get("b")` neither operator has operands that fit. Both calls are made, and
the error is that of the operator on the right. -/
theorem expression_order_small :
    let token (kind : Token.Kind) (column : UInt32) : Token := ⟨kind, "", .point ⟨1, column⟩⟩
    let ts : List Token := [token (.identifier "get") 1, token (.symbol .lparen) 4,
      token (.string "a") 5, token (.symbol .rparen) 8, token (.symbol .star) 10,
      token (.keyword .trueKw) 12, token (.symbol .minus) 17, token (.identifier "get") 19,
      token (.symbol .lparen) 22, token (.string "b") 23, token (.symbol .rparen) 26]
    let call : Caller Unit := Interpreter.callAt ⟨.small, .echo, default⟩ 3
    ∃ e, expression 4 ts = .ok (e, []) ∧
      (∃ us, ts = us ++ [] ∧ (∃ c, SpellsChain us c) ∧ ∀ c, SpellsChain us c → c.Orders e call ∅) ∧
      (e.eval call ∅ ()).result =
        .error (.typeMismatch .sub .bool .string (.point ⟨1, 17⟩)) ∧
      (e.eval call ∅ ()).events = [.nativeCall "host" "get", .nativeCall "host" "get"] := by
  intro token ts call
  obtain ⟨e, he⟩ : ∃ e, expression 4 ts = .ok (e, []) := ⟨_, rfl⟩
  refine ⟨e, he, expression_order he call ∅, ?_⟩
  obtain rfl := congrArg Prod.fst (Except.ok.inj he)
  exact ⟨rfl, rfl⟩

end Reader

end Scriptlet
