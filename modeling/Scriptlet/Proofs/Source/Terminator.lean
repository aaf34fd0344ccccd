import Mathlib
import Scriptlet.Proofs.Source.Line

/-!
# Lines and their ends

A line of a text ends with a newline, with a carriage return and a newline, or with the text. With
these ends the lines make up the text. A file gives a line without its end, but it takes all the
carriage returns for a part of it that stand there, however many they are, and also where no newline
follows. So a line is given as it stands in the text exactly if it does not end in a carriage return
of its own.

## Main definitions

* `TerminatedLine` — a line and what ends it
* `Terminated` — a text as a row of lines

## Main results

* `Terminated.flatMap_text` — the lines with their ends are the text
* `Terminated.exists_at` — between which newlines a line stands
* `SourceFile.line?_eq` — what is given for a line
* `SourceFile.line_terminated` — the lines of a file
* `SourceFile.line_not_verbatim` — some lines are not given as they stand there
-/

namespace Scriptlet

/-- A line of a text, and what ends it. -/
structure TerminatedLine where
  content : List Char
  terminator : List Char

/-- A line with its end, as it stands in the text. -/
def TerminatedLine.text (l : TerminatedLine) : List Char := l.content ++ l.terminator

/-- A line that ends before the text does. A carriage return before a newline belongs to the end. -/
def TerminatedLine.Ends (l : TerminatedLine) : Prop :=
  l.terminator = ['\n'] ∧ l.content.getLast? ≠ some '\r' ∨ l.terminator = ['\r', '\n']

/-- A text is a row of lines, the last of which ends with the text. -/
inductive Terminated : List Char → List TerminatedLine → Prop
  | last {content} (hline : '\n' ∉ content) : Terminated content [⟨content, []⟩]
  | cons {l text ls} (hline : '\n' ∉ l.content) (hends : l.Ends) (h : Terminated text ls) :
      Terminated (l.text ++ text) (l :: ls)

/-- Every text is a row of lines. -/
theorem exists_terminated (text : List Char) : ∃ ls, Terminated text ls := by
  induction hn : text.length using Nat.strongRecOn generalizing text with
  | ind n ih =>
    by_cases hline : '\n' ∈ text
    · obtain ⟨content, rest, rfl, hcontent⟩ := List.eq_append_cons_of_mem hline
      have hrest : rest.length < n := by
        rw [← hn, List.length_append, List.length_cons]
        omega
      obtain ⟨ls, hls⟩ := ih _ hrest rest rfl
      by_cases hlast : content.getLast? = some '\r'
      · obtain ⟨content, rfl⟩ := List.getLast?_eq_some_iff.1 hlast
        have hline : '\n' ∉ content := fun h => hcontent (List.mem_append_left _ h)
        have hrow := Terminated.cons (l := ⟨content, ['\r', '\n']⟩) hline (.inr rfl) hls
        rw [TerminatedLine.text, List.append_assoc] at hrow
        rw [List.append_assoc]
        exact ⟨_, hrow⟩
      · have hrow := Terminated.cons (l := ⟨content, ['\n']⟩) hcontent (.inl ⟨rfl, hlast⟩) hls
        rw [TerminatedLine.text, ← List.append_cons] at hrow
        exact ⟨_, hrow⟩
    · exact ⟨_, .last hline⟩

/-! ### What carriage returns are taken away -/

theorem trimReturns_eq (cs : List Char) : trimReturns cs = cs.rdropWhile (· = '\r') := rfl

theorem trimReturns_concat_return (cs : List Char) :
    trimReturns (cs ++ ['\r']) = trimReturns cs := by
  rw [trimReturns_eq, List.rdropWhile_concat_pos _ _ _ rfl, trimReturns_eq]

/-- What is taken away are carriage returns, and all of them that stand at the end. -/
theorem trimReturns_append_returns (cs : List Char) :
    ∃ n, trimReturns cs ++ List.replicate n '\r' = cs ∧
      (trimReturns cs).getLast? ≠ some '\r' := by
  refine ⟨(cs.rtakeWhile (· = '\r')).length, ?_, fun h => ?_⟩
  · have hreturns : cs.rtakeWhile (· = '\r') =
        List.replicate (cs.rtakeWhile (· = '\r')).length '\r' :=
      List.eq_replicate_iff.2 ⟨rfl, fun c hc => by simpa using List.mem_rtakeWhile_imp hc⟩
    rw [← hreturns, trimReturns_eq]
    exact List.rdropWhile_append_rtakeWhile
  · obtain ⟨init, hinit⟩ := List.getLast?_eq_some_iff.1 h
    have hne : cs.rdropWhile (· = '\r') ≠ [] := by
      rw [← trimReturns_eq, hinit]
      simp
    refine List.rdropWhile_last_not _ _ hne ?_
    simp [← trimReturns_eq, hinit]

/-- Nothing is taken away exactly if there is no carriage return at the end. -/
theorem trimReturns_eq_self_iff {cs : List Char} :
    trimReturns cs = cs ↔ cs.getLast? ≠ some '\r' := by
  obtain ⟨n, hreturns, hlast⟩ := trimReturns_append_returns cs
  constructor
  · intro h
    rwa [h] at hlast
  · intro h
    cases n with
    | zero => rwa [List.replicate_zero, List.append_nil] at hreturns
    | succ n =>
      refine absurd ?_ h
      rw [← hreturns, List.replicate_succ', ← List.append_assoc, List.getLast?_concat]

/-! ### Rows of lines -/

/-- A line that ends before the text does stands before a newline, perhaps with a carriage return
between them. -/
theorem TerminatedLine.Ends.exists_stretch {l : TerminatedLine} (h : l.Ends)
    (hline : '\n' ∉ l.content) :
    ∃ stretch, l.text = stretch ++ ['\n'] ∧ '\n' ∉ stretch ∧
      trimReturns stretch = trimReturns l.content := by
  obtain ⟨content, terminator⟩ := l
  obtain ⟨rfl, -⟩ | rfl := h
  · exact ⟨content, rfl, hline, rfl⟩
  · refine ⟨content ++ ['\r'], ?_, by simpa using hline, trimReturns_concat_return content⟩
    rw [TerminatedLine.text, List.append_assoc]
    rfl

namespace Terminated

variable {text : List Char} {ls : List TerminatedLine}

/-- **The lines with their ends are the text.** -/
theorem flatMap_text (h : Terminated text ls) : ls.flatMap TerminatedLine.text = text := by
  induction h with
  | last => rw [List.flatMap_singleton, TerminatedLine.text, List.append_nil]
  | cons _ _ _ ih => rw [List.flatMap_cons, ih]

/-- The lines of a text are the stretches between its newlines, but for what is taken away. -/
theorem map_trimReturns (h : Terminated text ls) :
    (splitLines text).map trimReturns = ls.map fun l => trimReturns l.content := by
  induction h with
  | last hline => rw [splitLines_of_no_newline hline, List.map_singleton, List.map_singleton]
  | cons hline hends _ ih =>
    obtain ⟨stretch, htext, hstretch, htrim⟩ := hends.exists_stretch hline
    rw [htext, List.append_assoc, List.singleton_append, splitLines_append_newline,
      splitLines_of_no_newline hstretch, List.singleton_append, List.map_cons, ih, List.map_cons,
      htrim]

theorem length_eq (h : Terminated text ls) : ls.length = (splitLines text).length := by
  have hlength := congrArg List.length h.map_trimReturns
  rw [List.length_map, List.length_map] at hlength
  exact hlength.symm

/-- **Between which newlines a line stands.** As many newlines come before it as lines, and it is
right behind the last of them. It has none in it, and ends with the next one or with the text. -/
theorem exists_at (h : Terminated text ls) {i : Nat} {l : TerminatedLine} (hl : ls[i]? = some l) :
    ∃ before after, text = before ++ (l.text ++ after) ∧ before.count '\n' = i ∧
      (before = [] ∨ before.getLast? = some '\n') ∧ '\n' ∉ l.content ∧
      (l.Ends ∨ l.terminator = [] ∧ after = []) := by
  induction h generalizing i with
  | last hline =>
    obtain ⟨rfl, rfl⟩ : i = 0 ∧ _ = l := by simpa [List.getElem?_singleton] using hl
    exact ⟨[], [], by simp [TerminatedLine.text], rfl, .inl rfl, hline, .inr ⟨rfl, rfl⟩⟩
  | @cons first text ls hline hends _ ih =>
    cases i with
    | zero =>
      obtain rfl := Option.some.inj hl
      exact ⟨[], text, rfl, rfl, .inl rfl, hline, .inl hends⟩
    | succ i =>
      obtain ⟨before, after, rfl, hcount, hstart, hrest⟩ := ih hl
      obtain ⟨stretch, hfirst, hstretch, -⟩ := hends.exists_stretch hline
      refine ⟨first.text ++ before, after, (List.append_assoc ..).symm, ?_, .inr ?_, hrest⟩
      · rw [hfirst, List.count_append, List.count_append, List.count_eq_zero.2 hstretch, hcount,
          List.count_singleton_self]
        omega
      · rcases hstart with rfl | hstart
        · rw [List.append_nil, hfirst, List.getLast?_concat]
        · rw [List.getLast?_append, hstart, Option.some_or]

end Terminated

/-! ### Files -/

namespace SourceFile

variable {f : SourceFile} {ls : List TerminatedLine}

/-- **What is given for a line**: its text without its end and without further carriage returns. -/
theorem line?_eq (h : Terminated f.text.toList ls) {n : UInt32} {i : Nat} (hn : n.toNat = i + 1) :
    f.line? n = ls[i]?.map fun l => String.ofList (trimReturns l.content) := by
  have hline : (splitLines f.text.toList)[i]?.map trimReturns =
      ls[i]?.map fun l => trimReturns l.content := by
    rw [← List.getElem?_map, h.map_trimReturns, List.getElem?_map]
  have hgiven := congrArg (Option.map String.ofList) hline
  rw [Option.map_map, Option.map_map] at hgiven
  rw [line?_eq_getElem? f hn]
  exact hgiven

/-- Lines are counted from one. -/
theorem isSome_line?_iff {n : UInt32} :
    (f.line? n).isSome ↔ 1 ≤ n.toNat ∧ n.toNat ≤ f.lineCount := by
  rw [← length_lines]
  cases hn : n.toNat with
  | zero => simp [line?_eq_none f hn]
  | succ i =>
    rw [line?_eq_getElem? f hn, Option.isSome_map, isSome_getElem?]
    omega

/-- **The lines of a file.** There is one more of them than there are newlines, and with their ends
they are the text. Looking one up never cuts out of bounds or inside a character. What is given for
the number of a line are characters that stand together in the text, behind as many newlines as
lines come before it, without the carriage returns at its end. So it is the line itself exactly if
the line does not end in a carriage return. There is nothing for other numbers. -/
theorem line_terminated (f : SourceFile) :
    f.lineCount = f.text.toList.count '\n' + 1 ∧
      (∀ n, (f.line? n).isSome ↔ 1 ≤ n.toNat ∧ n.toNat ≤ f.lineCount) ∧
      (∀ n, f.lookUp n = .ok (f.line? n)) ∧
      (∃ ls, Terminated f.text.toList ls) ∧
      ∀ ls, Terminated f.text.toList ls →
        ls.length = f.lineCount ∧ ls.flatMap TerminatedLine.text = f.text.toList ∧
        ∀ (n : UInt32) (i : Nat) (l : TerminatedLine), n.toNat = i + 1 → ls[i]? = some l →
          (∃ before after, f.text.toList = before ++ (l.text ++ after) ∧
            before.count '\n' = i ∧ (before = [] ∨ before.getLast? = some '\n') ∧
            '\n' ∉ l.content ∧ (l.Ends ∨ l.terminator = [] ∧ after = [])) ∧
          (∃ shown k, f.line? n = some (String.ofList shown) ∧
            shown ++ List.replicate k '\r' = l.content ∧ shown.getLast? ≠ some '\r') ∧
          (f.line? n = some (String.ofList l.content) ↔ l.content.getLast? ≠ some '\r') := by
  refine ⟨f.lineCount_eq, fun n => isSome_line?_iff, f.lookUp_eq_ok, exists_terminated _,
    fun ls h => ⟨h.length_eq.trans f.length_lines, h.flatMap_text, fun n i l hn hl => ?_⟩⟩
  have hgiven : f.line? n = some (String.ofList (trimReturns l.content)) := by
    rw [line?_eq h hn, hl, Option.map_some]
  obtain ⟨k, hreturns, hlast⟩ := trimReturns_append_returns l.content
  refine ⟨h.exists_at hl, ⟨_, k, hgiven, hreturns, hlast⟩, ?_⟩
  rw [hgiven, ← trimReturns_eq_self_iff, Option.some_inj, String.ofList_inj]

/-- The first line ends in a carriage return and a newline, and the second one with the text. -/
theorem line_terminated_small :
    let f : SourceFile := ⟨"small", "é\r\n\rb"⟩
    Terminated f.text.toList [⟨['é'], ['\r', '\n']⟩, ⟨['\r', 'b'], []⟩] ∧
      f.lineCount = 2 ∧ f.line? 1 = some "é" ∧ f.line? 2 = some "\rb" ∧ f.line? 3 = none := by
  intro f
  have hrow : Terminated f.text.toList [⟨['é'], ['\r', '\n']⟩, ⟨['\r', 'b'], []⟩] := by
    have htext : f.text.toList = ['é', '\r', '\n', '\r', 'b'] := by decide
    rw [htext]
    exact .cons (l := ⟨['é'], ['\r', '\n']⟩) (by decide) (.inr rfl) (.last (by decide))
  obtain ⟨-, hsome, -, -, hrows⟩ := line_terminated f
  obtain ⟨hlength, -, hlines⟩ := hrows _ hrow
  refine ⟨hrow, hlength.symm, (hlines 1 0 _ rfl rfl).2.2.2 (by decide),
    (hlines 2 1 _ rfl rfl).2.2.2 (by decide), ?_⟩
  rw [← Option.not_isSome_iff_eq_none, hsome, ← hlength]
  decide

/-- Of two carriage returns before a newline only the second one belongs to the end of the line, but
neither is given. So not all lines are given as they stand there. -/
theorem line_not_verbatim :
    let f : SourceFile := ⟨"main.yal", "a\r\r\n"⟩
    Terminated f.text.toList [⟨['a', '\r'], ['\r', '\n']⟩, ⟨[], []⟩] ∧ f.line? 1 = some "a" ∧
      ¬ ∀ (f : SourceFile) (ls : List TerminatedLine), Terminated f.text.toList ls →
        ∀ (n : UInt32) (i : Nat) (l : TerminatedLine), n.toNat = i + 1 → ls[i]? = some l →
          f.line? n = some (String.ofList l.content) := by
  intro f
  have hrow : Terminated f.text.toList [⟨['a', '\r'], ['\r', '\n']⟩, ⟨[], []⟩] := by
    have htext : f.text.toList = ['a', '\r', '\r', '\n'] := by decide
    rw [htext]
    exact .cons (l := ⟨['a', '\r'], ['\r', '\n']⟩) (by decide) (.inr rfl) (.last (by decide))
  have hgiven : f.line? 1 = some "a" := by decide
  refine ⟨hrow, hgiven, fun h => ?_⟩
  have hline := h f _ hrow 1 0 _ rfl rfl
  rw [hgiven] at hline
  exact absurd hline (by decide)

end SourceFile

end Scriptlet
