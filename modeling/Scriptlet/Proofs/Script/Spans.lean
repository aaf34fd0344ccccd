import Scriptlet.Proofs.Grammar.Stretch
import Scriptlet.Proofs.Script.Blame

/-!
# Spans of programs

The spans of a program that was read from a text are exact: every node has a stretch of the tokens,
and its span goes from the start of the first of them to the end of the last one.

## Main results

* `Program.spans_exact` — every node of a program has a stretch of tokens, and the span of it
-/

namespace Scriptlet

open Grammar

/-- **The spans of a program are exact.** A text that is not too long and is read as a program is
scanned to tokens that stand one after the other. The program consists of imports and functions that
have stretches of these tokens, one after the other, and inside such a stretch every part has one.
Each span starts where the first token of its stretch starts, and ends where the last one ends. -/
theorem Program.spans_exact {text : String} {p : Program} (hsize : text.utf8ByteSize < 2 ^ 32 - 1)
    (hp : Program.ofText text = .ok p) :
    ∃ us vs rest lines functions, scan text = .ok (us ++ (vs ++ rest)) ∧
      Ordered (us ++ (vs ++ rest)) ∧ InOrder ImportAt us lines ∧
      InOrder FunctionAt vs functions ∧ p.ConsistsOf (definitionsOf lines.flatten functions) := by
  obtain ⟨ts, hscan, hparse⟩ := Program.exists_scan_of_ofText hp
  obtain ⟨row, hrow, rfl, hwritten⟩ := scanFrom_sound hscan
  have hlaid : SourceFile.LaidOut ⟨"", text⟩ row := ⟨hrow, hwritten.symm, hsize⟩
  have ho := hlaid.ordered
  obtain ⟨imports, functions, hprogram, -, -, hdefinitions⟩ := Program.exists_of_ofTokens hparse
  obtain ⟨rest, hrest⟩ : upToEnd (row.map Spaced.token) <+: row.map Spaced.token :=
    List.takeWhile_prefix _
  rw [← hrest] at hscan ho
  generalize upToEnd (row.map Spaced.token) = ts at hprogram hscan ho
  obtain @⟨blank, us, vs, lines, functions, -, hi, hf⟩ := hprogram
  have hregroup : blank ++ (us ++ vs) ++ rest = (blank ++ us) ++ (vs ++ rest) := by simp
  rw [hregroup] at hscan ho
  have hus : InOrder ImportAt us lines := hi.inOrder fun ws hws line hline =>
    hline.importAt (ho.part (hws.trans ⟨blank, vs ++ rest, rfl⟩))
  have hvs : InOrder FunctionAt vs functions := hf.inOrder fun ws hws f hf =>
    hf.functionAt (ho.part (hws.trans ⟨blank ++ us, rest, by simp⟩))
  exact ⟨blank ++ us, vs, rest, lines, functions, hscan, ho, hus.prepend blank, hvs, hdefinitions⟩

set_option maxRecDepth 2000 in
/-- A function goes from its first token on the second line to its brace on the last one. -/
theorem Program.spans_exact_small :
    let text := "import \x7b get \x7d from \"hö\"\nfunc main(x) \x7b\n y := get(x) + x \n\x7d"
    ∃ p d us vs rest lines functions, Program.ofText text = .ok p ∧ p.get? "main" = some d ∧
      d.span = ⟨⟨2, 1⟩, ⟨4, 1⟩⟩ ∧ scan text = .ok (us ++ (vs ++ rest)) ∧
      InOrder ImportAt us lines ∧ InOrder FunctionAt vs functions ∧
      p.ConsistsOf (definitionsOf lines.flatten functions) := by
  intro text
  have hmain : ((Program.ofText text).toOption.bind fun p => p.get? "main").map Definition.span =
      some ⟨⟨2, 1⟩, ⟨4, 1⟩⟩ := by cbv
  cases hp : Program.ofText text with
  | error e => simp [hp, Except.toOption] at hmain
  | ok p =>
    rw [hp] at hmain
    obtain ⟨d, hd, hspan⟩ := Option.map_eq_some_iff.1 hmain
    obtain ⟨us, vs, rest, lines, functions, hscan, -, hi, hf, hdefinitions⟩ :=
      Program.spans_exact (by decide) hp
    exact ⟨p, d, us, vs, rest, lines, functions, rfl, hd, hspan, hscan, hi, hf, hdefinitions⟩

end Scriptlet
