import Scriptlet.Expr

/-!
# The parts of expressions

An expression has itself as a part, and the parts of its operands or arguments. What is said of
every node of an expression is said of its parts.
-/

namespace Scriptlet

namespace Expr

mutual

/-- An expression and all expressions inside it, in the order in which they are written. -/
def parts : Expr → List Expr
  | binary level lhs op opSpan rhs span =>
    binary level lhs op opSpan rhs span :: (lhs.parts ++ rhs.parts)
  | call callee args span => call callee args span :: partsAll args
  | number x span => [number x span]
  | bool b span => [bool b span]
  | string s span => [string s span]
  | identifier name span => [identifier name span]

/-- The parts of several expressions. -/
def partsAll : List Expr → List Expr
  | [] => []
  | e :: es => e.parts ++ partsAll es

end

theorem self_mem_parts (e : Expr) : e ∈ e.parts := by
  cases e <;> exact List.mem_cons_self

theorem mem_partsAll {es : List Expr} {x : Expr} : x ∈ partsAll es ↔ ∃ e ∈ es, x ∈ e.parts := by
  induction es with
  | nil => simp [partsAll]
  | cons e es ih => simp [partsAll, ih]

theorem forall_mem_parts_binary {P : Expr → Prop} {level : Level} {lhs rhs : Expr} {op : Operator}
    {opSpan span : Span} :
    (∀ x ∈ (binary level lhs op opSpan rhs span).parts, P x) ↔
      P (binary level lhs op opSpan rhs span) ∧ (∀ x ∈ lhs.parts, P x) ∧ ∀ x ∈ rhs.parts, P x := by
  rw [parts, List.forall_mem_cons, List.forall_mem_append]

theorem forall_mem_parts_call {P : Expr → Prop} {callee : Identifier} {args : List Expr}
    {span : Span} :
    (∀ x ∈ (call callee args span).parts, P x) ↔
      P (call callee args span) ∧ ∀ e ∈ args, ∀ x ∈ e.parts, P x := by
  rw [parts, List.forall_mem_cons]
  refine and_congr_right fun _ => ⟨fun h e he x hx => ?_, fun h x hx => ?_⟩
  · exact h x (mem_partsAll.2 ⟨e, he, hx⟩)
  · obtain ⟨e, he, hx⟩ := mem_partsAll.1 hx
    exact h e he x hx

end Expr

end Scriptlet
