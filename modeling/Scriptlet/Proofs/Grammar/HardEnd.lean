import Scriptlet.Proofs.Grammar.Following
import Scriptlet.Proofs.Grammar.Unexpected

/-!
# The first mark of the end

Reading stops for good at the first mark of the end. A walk along a row comes to an end itself, and
until then the cursor stands on the tokens up to that mark, and takes none but those before it.
So a row can be cut off behind the mark, and one that is missing can be added.

## Main definitions

* `Walker.along` — a walker for a row of tokens, with as many rounds as there are tokens or more

## Main results

* `Walker.Extent.ofTokens_eq` — programs are what walks read, up to the limit on nesting
* `Program.ofTokens_hardEnd` — the first mark of the end is a hard end
-/

namespace Scriptlet

open Grammar

theorem noEnd_upToEnd (ts : List Token) : NoEnd (upToEnd ts) := fun t ht => by
  simpa using List.all_eq_true.1 List.all_takeWhile t ht

namespace Grammar

/-- A row that has a mark of the end goes on to the first one. -/
theorem HasEnd.exists_stop {ts : List Token} (h : HasEnd ts) :
    ∃ stop after, ts = upToEnd ts ++ stop :: after ∧ stop.kind = .endOfFile := by
  have hts : ts = upToEnd ts ++ ts.dropWhile fun t => t.kind ≠ .endOfFile :=
    List.takeWhile_append_dropWhile.symm
  have hend : HasEnd (ts.dropWhile fun t => t.kind ≠ .endOfFile) :=
    HasEnd.of_append (hts ▸ h) (noEnd_upToEnd ts)
  have hhead := List.head?_dropWhile_not (fun t : Token => decide (t.kind ≠ .endOfFile)) ts
  cases hrest : ts.dropWhile fun t => t.kind ≠ .endOfFile with
  | nil =>
    rw [hrest] at hend
    exact absurd hend fun ⟨_, ht, _⟩ => List.not_mem_nil ht
  | cons stop after =>
    rw [hrest] at hts hhead
    exact ⟨stop, after, hts, by simpa using hhead⟩

end Grammar

theorem exists_stop (ts : List Token) : ∃ stop after,
    withEnd ts = upToEnd ts ++ stop :: after ∧ stop.kind = .endOfFile := by
  rw [← upToEnd_withEnd]
  exact (hasEnd_withEnd ts).exists_stop

theorem withEnd_concat (ts : List Token) {stop : Token} (h : stop.kind = .endOfFile) :
    withEnd (ts ++ [stop]) = ts ++ [stop] := by
  rw [withEnd, List.getLast?_concat]
  exact if_pos h

/-- The mark that is added has the span of the last token. -/
theorem withEnd_of_noEnd {ts : List Token} (h : NoEnd ts) :
    withEnd ts = ts ++ [.endOfFile ((ts.getLast?.map Token.span).getD (.point .first))] := by
  rw [withEnd]
  cases hlast : ts.getLast? with
  | none =>
    rw [List.getLast?_eq_none_iff.1 hlast]
    rfl
  | some t => exact if_neg (h t (List.mem_of_getLast? hlast))

/-- Marking the end adds to a row at its end only. -/
theorem exists_withEnd_append (ts : List Token) : ∃ more, withEnd ts = ts ++ more := by
  rw [withEnd]
  split
  · rename_i hlast
    exact ⟨_, by rw [List.getLast?_eq_none_iff.1 hlast]; rfl⟩
  · split
    · exact ⟨[], (List.append_nil ts).symm⟩
    · exact ⟨_, rfl⟩

namespace Walker

/-- Walks along a row of tokens with its end marked, in any sufficient number of rounds. -/
def along (ts : List Token) (limited : Bool) (extra : Nat) : Walker :=
  ⟨withEnd ts, limited, (withEnd ts).length + extra⟩

theorem exists_extent (ts : List Token) (limited : Bool) (extra : Nat) :
    ∃ x : (along ts limited extra).Extent, x.before = upToEnd ts := by
  obtain ⟨stop, after, hts, hstop⟩ := exists_stop ts
  have hlt : (upToEnd ts).length < (withEnd ts).length + extra := by
    rw [hts, List.length_append, List.length_cons]
    omega
  exact ⟨⟨upToEnd ts, stop, after, hts, noEnd_upToEnd ts, hstop, hlt⟩, rfl⟩

/-- Programs are what walks read, up to where they first nest too deep. What stands behind the first
mark of the end is free. -/
theorem Extent.ofTokens_eq {w : Walker} (x : w.Extent) {ts rest : List Token}
    (h : withEnd ts = x.before ++ x.stop :: rest) :
    w.cut (w.program .start) = some (Program.ofTokens ts) := by
  have hfollows := x.program_follows
  obtain ⟨result, hresult⟩ := hfollows.exists_cut
  have hread := hfollows.read_eq hresult rest
  rw [hresult, Program.ofTokens, StateT.run', h]
  change Reader.program (.expression maxNesting) (x.before ++ x.stop :: rest) = _ at hread
  rw [hread]
  cases result <;> rfl

end Walker

namespace Program

/-- Every error blames one of the tokens, or the mark of the end. -/
theorem exists_token_of_ofTokens {ts : List Token} {e : ParseError} (h : ofTokens ts = .error e) :
    ∃ t ∈ withEnd ts, e.span = t.span := by
  obtain ⟨x, -⟩ := Walker.exists_extent ts true 0
  have hfollows := x.program_follows
  have hresult := (hfollows.limit rfl).symm.trans (x.ofTokens_eq x.tokens_eq)
  rw [h] at hresult
  obtain ⟨t, ht, hspan⟩ := hfollows.blames e hresult
  refine ⟨t, ?_, hspan⟩
  rw [show withEnd ts = x.before ++ [x.stop] ++ x.after by simp [← x.tokens_eq, Walker.along]]
  exact List.mem_append_left _ ht

/-- Rows with the same tokens up to the first mark of the end are read the same. -/
theorem ofTokens_congr {ts us before after after' : List Token} {stop : Token}
    (hb : NoEnd before) (hs : stop.kind = .endOfFile) (hts : withEnd ts = before ++ stop :: after)
    (hus : withEnd us = before ++ stop :: after') : ofTokens ts = ofTokens us := by
  let w : Walker := ⟨before ++ [stop], true, before.length + 1⟩
  let x : w.Extent := ⟨before, stop, [], rfl, hb, hs, Nat.lt_succ_self _⟩
  exact Option.some.inj ((x.ofTokens_eq hts).symm.trans (x.ofTokens_eq hus))

/-- **The first mark of the end is a hard end.** A walk along any row comes to an end in as many
rounds as there are tokens, with the program or the error of the row. Everything it asks for is
among the tokens before the first mark of the end and that mark, which it never takes. So nothing
behind the mark counts, and a row without one is read as if its last token were followed by one. -/
theorem ofTokens_hardEnd (ts : List Token) :
    (∃ stop after, withEnd ts = upToEnd ts ++ stop :: after ∧ NoEnd (upToEnd ts) ∧
      stop.kind = .endOfFile) ∧
    (∀ extra,
      let out := (Walker.along ts true extra).program .start
      out.result = some (ofTokens ts) ∧ out.cursor.position ≤ (upToEnd ts).length ∧
        ∀ s ∈ out.steps, s.Inside (upToEnd ts).length) ∧
    (∀ stop rest, stop.kind = .endOfFile →
      ofTokens (ts ++ stop :: rest) = ofTokens (ts ++ [stop])) ∧
    (NoEnd ts → ofTokens ts =
      ofTokens (ts ++ [.endOfFile ((ts.getLast?.map Token.span).getD (.point .first))])) := by
  refine ⟨?_, fun extra => ?_, fun stop rest hstop => ?_, fun hts => ?_⟩
  · obtain ⟨stop, after, hts, hstop⟩ := exists_stop ts
    exact ⟨stop, after, hts, noEnd_upToEnd ts, hstop⟩
  · obtain ⟨x, hx⟩ := Walker.exists_extent ts true extra
    have hfollows := x.program_follows
    rw [← hx]
    exact ⟨(hfollows.limit rfl).symm.trans (x.ofTokens_eq x.tokens_eq), hfollows.after.within,
      hfollows.inside⟩
  · obtain ⟨stop', after, hts, hstop'⟩ := (show HasEnd (ts ++ [stop]) from
      ⟨stop, by simp, hstop⟩).exists_stop
    obtain ⟨more, hmore⟩ := exists_withEnd_append (ts ++ stop :: rest)
    have hrow := calc withEnd (ts ++ stop :: rest)
      _ = (ts ++ [stop]) ++ (rest ++ more) := by rw [hmore]; simp
      _ = (upToEnd (ts ++ [stop]) ++ stop' :: after) ++ (rest ++ more) :=
        congrArg (· ++ (rest ++ more)) hts
      _ = upToEnd (ts ++ [stop]) ++ stop' :: (after ++ (rest ++ more)) := by
        rw [List.append_assoc, List.cons_append]
    exact ofTokens_congr (noEnd_upToEnd _) hstop' hrow ((withEnd_concat ts hstop).trans hts)
  · rw [ofTokens, ofTokens, withEnd_of_noEnd hts, withEnd_concat ts rfl]

end Program

end Scriptlet
