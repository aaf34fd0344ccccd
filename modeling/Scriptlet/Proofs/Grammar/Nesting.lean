import Scriptlet.Proofs.Expr.Parts
import Scriptlet.Proofs.Grammar.HardEnd

/-!
# The limit on nesting

A walk without the limit on nesting tells what the limit does: nothing, as long as no expression is
entered that nests too deep, and otherwise it stops the reading at the first such entry. As every
expression is closed again, whether it was read or not, the count is the nesting of the expression
that is read and not of what was read before.

## Main results

* `Expr.nesting_le_of_mem_parts` — the parts of an expression do not nest deeper than it does
* `Program.ofTokens_nesting` — the limit changes nothing but that it stops deep nesting
-/

namespace Scriptlet

/-- The parts of an expression do not nest deeper than it does. -/
theorem Expr.nesting_le_of_mem_parts : ∀ e : Expr, ∀ x ∈ e.parts, x.nesting ≤ e.nesting
  | .binary level lhs op opSpan rhs span => by
    have hlhs := lhs.nesting_le_of_mem_parts
    have hrhs := rhs.nesting_le_of_mem_parts
    refine forall_mem_parts_binary.2 ⟨Nat.le.refl, fun x hx => ?_, fun x hx => ?_⟩
    · exact Nat.le_trans (hlhs x hx) (Nat.le_max_left _ _)
    · exact Nat.le_trans (hrhs x hx) (Nat.le_trans (Nat.le_succ _) (Nat.le_max_right _ _))
  | .call callee args span => by
    refine forall_mem_parts_call.2 ⟨Nat.le.refl, fun e he x hx => ?_⟩
    have hargs : e.nesting ≤ nestingAll args := nestingAll_le_iff.1 Nat.le.refl e he
    exact Nat.le_trans (e.nesting_le_of_mem_parts x hx) (Nat.le_succ_of_le hargs)
  | .number .. | .bool .. | .string .. | .identifier .. => by
    simp [parts]

/-- Where an expression is entered too deep, it is entered. -/
theorem exists_enter_of_firstDeep {steps : List Cursor.Step} {index : Nat}
    (h : firstDeep steps = some index) :
    ∃ depth, .enter index depth ∈ steps ∧ maxNesting < depth := by
  obtain ⟨s, hs, hdeep⟩ := List.exists_of_findSome?_eq_some h
  cases s with
  | enter i depth =>
    rw [Cursor.Step.deep?] at hdeep
    split at hdeep
    · rename_i hlt
      obtain rfl := Option.some.inj hdeep
      exact ⟨depth, hs, hlt⟩
    · cases hdeep
  | _ => cases hdeep

namespace Walker

/-- Behind an expression as many are open as before, whether it was read or not. -/
theorem expression_depth {w : Walker} (x : w.Extent) {levels : Nat} {c : Cursor}
    (hc : x.Within c) (hl : x.before.length < c.position + levels) :
    (∃ result, (w.expression levels c).result = some result) ∧
      (w.expression levels c).cursor.depth = c.depth := by
  have hfollows := Extent.expression_follows hc hl
  exact ⟨hfollows.finishes, hfollows.after.depth_eq⟩

/-- An expression is entered at one of the tokens. -/
theorem Extent.exists_token {w : Walker} (x : w.Extent) {index : Nat}
    (h : firstDeep (w.program .start).steps = some index) :
    w.tokens[index]? = some (w.tokenAt index) := by
  obtain ⟨depth, hmem, -⟩ := exists_enter_of_firstDeep h
  have hle : index ≤ x.before.length := x.program_follows.inside _ hmem
  have hlt : index < w.tokens.length := by
    rw [x.tokens_eq, List.length_append, List.length_cons]
    omega
  rw [tokenAt, List.drop_eq_getElem_cons hlt, nextToken_cons, List.getElem?_eq_getElem hlt]

end Walker

namespace Program

open Grammar Walker

theorem nesting_le_of_ofTokens {ts : List Token} {p : Program} (h : ofTokens ts = .ok p)
    {name : String} {f : ScriptFunction} (hf : p.get? name = some (.script f)) :
    ∀ s ∈ f.body, ∀ e ∈ s.value.parts, e.nesting ≤ maxNesting := by
  intro s hs e he
  obtain ⟨imports, functions, -, -, hacc, hp⟩ := exists_of_ofTokens h
  obtain ⟨hmem, -⟩ := hp.of_get? hf
  have hfun : f ∈ functions := by simpa [definitionsOf] using hmem
  exact Nat.le_trans (s.value.nesting_le_of_mem_parts e he) ((hacc f hfun).nesting_le s hs)

/-- **The limit on nesting changes nothing but that it stops deep nesting.** Of two walks along any
row, `free` has no limit, and `real` reads what is read. If `free` enters no expression that nests
too deep, it reads the same, with the same program or the same error. Otherwise the error blames the
token at which `free` first does so. When an expression is read or fails, no more are open than
before, so that none is at the end of the program. In a program that is read, no part of any
expression nests too deep. -/
theorem ofTokens_nesting (ts : List Token) (extra : Nat) :
    let free := (along ts false extra).program .start
    let real := (along ts true extra).program .start
    (∃ result, free.result = some result) ∧ real.result = some (ofTokens ts) ∧
      (firstDeep free.steps = none → free.result = some (ofTokens ts)) ∧
      (∀ index, firstDeep free.steps = some index →
        ∃ t, (withEnd ts)[index]? = some t ∧ ofTokens ts = .error (.nestingLimit t.span)) ∧
      free.cursor.depth = 0 ∧ real.cursor.depth = 0 ∧
      (∀ limited levels c, c.position ≤ (upToEnd ts).length →
        (upToEnd ts).length < c.position + levels →
          let out := (along ts limited extra).expression levels c
          (∃ result, out.result = some result) ∧ out.cursor.depth = c.depth) ∧
      ∀ p, ofTokens ts = .ok p → ∀ name f, p.get? name = some (.script f) →
        ∀ s ∈ f.body, ∀ e ∈ s.value.parts, e.nesting ≤ maxNesting := by
  intro free real
  obtain ⟨x, hx⟩ := exists_extent ts false extra
  obtain ⟨y, hy⟩ := exists_extent ts true extra
  have hfree := x.program_follows
  have hreal := y.program_follows
  have hcut : (along ts false extra).cut free = some (ofTokens ts) := x.ofTokens_eq x.tokens_eq
  refine ⟨hfree.finishes, (hreal.limit rfl).symm.trans (y.ofTokens_eq y.tokens_eq), fun h => ?_,
    fun index h => ?_, hfree.after.depth_eq, hreal.after.depth_eq, fun limited levels c hc hl => ?_,
    fun p hp name f hf => nesting_le_of_ofTokens hp hf⟩
  · exact (cut_of_none h).symm.trans hcut
  · have herror := hcut.symm.trans (cut_of_some h)
    exact ⟨_, x.exists_token h, Option.some.inj herror⟩
  · obtain ⟨z, hz⟩ := exists_extent ts limited extra
    rw [← hz] at hc hl
    exact expression_depth z hc hl

end Program

end Scriptlet
