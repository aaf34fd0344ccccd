import Scriptlet.Proofs.Source.Bytes

/-!
# The table of lines

A file finds its lines by the byte offsets in its table. Without a table, the lines of a text are
the stretches between its newlines. The two agree: what the table holds are the offsets at which
these stretches start, so a look-up cuts out one of them, and never goes out of bounds or into the
middle of a character.

## Main definitions

* `splitLines`, `SourceFile.lines` — the stretches between newlines

## Main results

* `exists_of_splitLines` — where a line starts and where it ends, by the table
* `SourceFile.lookUp_eq_ok` — looking up a line never goes wrong
* `SourceFile.line?_eq_getElem?` — what is given for a line
-/

namespace Scriptlet

/-! ### Splitting into lines -/

/-- The stretches of a text between its newlines. -/
def splitLines : List Char → List (List Char)
  | [] => [[]]
  | c :: cs =>
    if c = '\n' then [] :: splitLines cs
    else
      match splitLines cs with
      | [] => [[c]]
      | l :: ls => (c :: l) :: ls

theorem splitLines_ne_nil (cs : List Char) : splitLines cs ≠ [] := by
  cases cs with
  | nil => simp [splitLines]
  | cons c cs =>
    unfold splitLines
    split
    · simp
    · split <;> simp

/-- There is one line more than there are newlines. -/
theorem length_splitLines (cs : List Char) : (splitLines cs).length = cs.count '\n' + 1 := by
  induction cs with
  | nil => rfl
  | cons c cs ih =>
    unfold splitLines
    split
    · rename_i h
      simp [h, ih]
    · rename_i h
      rw [List.count_cons_of_ne h]
      split
      · rename_i hnil
        exact absurd hnil (splitLines_ne_nil cs)
      · rename_i hcons
        rw [← ih, hcons]
        simp

theorem splitLines_append_newline (a b : List Char) :
    splitLines (a ++ '\n' :: b) = splitLines a ++ splitLines b := by
  induction a with
  | nil => rfl
  | cons c cs ih =>
    rw [List.cons_append, splitLines, splitLines, ih]
    by_cases hc : c = '\n'
    · rw [if_pos hc, if_pos hc, List.cons_append]
    · rw [if_neg hc, if_neg hc]
      obtain ⟨l, ls, hls⟩ := List.exists_cons_of_ne_nil (splitLines_ne_nil cs)
      rw [hls]
      rfl

theorem exists_splitLines (cs : List Char) :
    ∃ ls, splitLines cs = cs.takeWhile (· ≠ '\n') :: ls := by
  induction cs with
  | nil => exact ⟨[], rfl⟩
  | cons c cs ih =>
    obtain ⟨ls, hls⟩ := ih
    by_cases hc : c = '\n'
    · exact ⟨splitLines cs, by simp [splitLines, hc]⟩
    · exact ⟨ls, by simp [splitLines, hc, hls]⟩

theorem splitLines_of_no_newline {cs : List Char} (h : '\n' ∉ cs) : splitLines cs = [cs] := by
  induction cs with
  | nil => rfl
  | cons c cs ih =>
    obtain ⟨hc, hcs⟩ := not_or.1 (mt List.mem_cons.2 h)
    rw [splitLines, if_neg (Ne.symm hc), ih hcs]

/-! ### The offsets of lines -/

theorem length_newlineOffsets (offset : Nat) (cs : List Char) :
    (newlineOffsets offset cs).length = cs.count '\n' := by
  induction cs generalizing offset with
  | nil => rfl
  | cons c cs ih =>
    rw [newlineOffsets]
    split
    · rename_i h
      rw [List.length_cons, ih, h, List.count_cons_self]
    · rename_i h
      rw [ih, List.count_cons_of_ne h]

/-- The offsets at which the lines of a text start, if the text starts at an offset. -/
def startsFrom (offset : Nat) (cs : List Char) : List Nat :=
  offset :: (newlineOffsets offset cs).map (· + 1)

theorem startsFrom_newline (offset : Nat) (cs : List Char) :
    startsFrom offset ('\n' :: cs) = offset :: startsFrom (offset + 1) cs := by
  rw [startsFrom, newlineOffsets, if_pos rfl]
  rfl

theorem startsFrom_succ {c : Char} (hc : c ≠ '\n') (offset : Nat) (cs : List Char) (i : Nat) :
    (startsFrom offset (c :: cs))[i + 1]? = (startsFrom (offset + c.utf8Size) cs)[i + 1]? := by
  rw [startsFrom, newlineOffsets, if_neg hc]
  rfl

/-- **What the table says about a line**: the offset of its first byte, and if another line follows,
the offset behind the newline that ends it. -/
theorem exists_of_splitLines (offset : Nat) {cs l : List Char} {i : Nat}
    (h : (splitLines cs)[i]? = some l) :
    ∃ before after, cs = before ++ (l ++ after) ∧
      (startsFrom offset cs)[i]? = some (offset + byteCount before) ∧
      ((startsFrom offset cs)[i + 1]? = some (offset + byteCount (before ++ l) + 1) ∨
        (startsFrom offset cs)[i + 1]? = none ∧ after = []) := by
  induction cs generalizing offset l i with
  | nil =>
    obtain ⟨rfl, rfl⟩ : i = 0 ∧ [] = l := by simpa [splitLines, List.getElem?_singleton] using h
    exact ⟨[], [], rfl, rfl, .inr ⟨rfl, rfl⟩⟩
  | cons c cs ih =>
    by_cases hc : c = '\n'
    · subst hc
      rw [splitLines, if_pos rfl] at h
      rw [startsFrom_newline]
      cases i with
      | zero =>
        obtain rfl := Option.some.inj h
        exact ⟨[], '\n' :: cs, rfl, rfl, .inl rfl⟩
      | succ i =>
        obtain ⟨before, after, rfl, hstart, hnext⟩ := ih (offset + 1) h
        have hbytes (ds : List Char) :
            offset + 1 + byteCount ds = offset + byteCount ('\n' :: ds) := Nat.add_assoc _ _ _
        rw [hbytes] at hstart hnext
        exact ⟨'\n' :: before, after, rfl, hstart, hnext⟩
    · obtain ⟨first, ls, hls⟩ := List.exists_cons_of_ne_nil (splitLines_ne_nil cs)
      have hbytes (ds : List Char) :
          offset + c.utf8Size + byteCount ds = offset + byteCount (c :: ds) := Nat.add_assoc _ _ _
      rw [splitLines, if_neg hc, hls] at h
      rw [startsFrom_succ hc]
      cases i with
      | zero =>
        obtain rfl := Option.some.inj h
        obtain ⟨before, after, rfl, hstart, hnext⟩ :=
          ih (offset + c.utf8Size) (show (splitLines cs)[0]? = some first by rw [hls]; rfl)
        -- the line that goes on with `c` has nothing before it
        have hnil : before = [] := by
          have hzero := Option.some.inj hstart
          exact eq_nil_of_byteCount (by omega)
        subst hnil
        rw [hbytes] at hnext
        exact ⟨[], after, rfl, rfl, hnext⟩
      | succ i =>
        obtain ⟨before, after, rfl, hstart, hnext⟩ :=
          ih (offset + c.utf8Size) (show (splitLines cs)[i + 1]? = some l by rw [hls]; exact h)
        rw [hbytes] at hstart hnext
        rw [startsFrom_succ hc]
        exact ⟨c :: before, after, rfl, hstart, hnext⟩

namespace SourceFile

variable (f : SourceFile)

/-- The lines of a file, without their newlines. -/
def lines : List (List Char) := splitLines f.text.toList

theorem lineStarts_eq : f.lineStarts = startsFrom 0 f.text.toList := rfl

/-- There is one line more than there are newlines. -/
theorem lineCount_eq : f.lineCount = f.text.toList.count '\n' + 1 := by
  rw [lineCount, lineStarts, List.length_cons, List.length_map, length_newlineOffsets]

theorem length_lines : f.lines.length = f.lineCount :=
  (length_splitLines _).trans f.lineCount_eq.symm

/-- **What is looked up for a line** is the stretch between two newlines without the carriage
returns at its end. -/
theorem lookUp_eq (n : UInt32) :
    f.lookUp n = .ok (match n.toNat with
      | 0 => none
      | i + 1 => f.lines[i]?.map fun l => String.ofList (trimReturns l)) := by
  rw [lookUp]
  cases n.toNat with
  | zero => rfl
  | succ i =>
    simp only
    cases hline : f.lines[i]? with
    | none =>
      have hstart : f.lineStarts[i]? = none := by
        rw [List.getElem?_eq_none_iff] at hline ⊢
        rwa [f.length_lines] at hline
      rw [hstart]
      rfl
    | some l =>
      obtain ⟨before, after, htext, hstart, hnext⟩ := exists_of_splitLines 0 hline
      rw [Nat.zero_add] at hstart hnext
      have hstop : f.lineStop i = .ok (byteCount (before ++ l)) := by
        rw [lineStop]
        obtain hnext | ⟨hnext, rfl⟩ := hnext
        · rw [lineStarts_eq, hnext]
        · rw [lineStarts_eq, hnext, ← byteCount_toList, htext, List.append_nil]
      have hslice : sliceBytes? f.text.toList (byteCount before) (byteCount (before ++ l)) =
          some l := sliceBytes?_eq_some_iff.2 ⟨before, after, htext, rfl, rfl⟩
      rw [lineStarts_eq, hstart]
      simp only [hstop, bind, Except.bind, hslice]
      rfl

/-- **Looking up a line never goes wrong.** -/
theorem lookUp_eq_ok (n : UInt32) : f.lookUp n = .ok (f.line? n) := by
  rw [line?, lookUp_eq]

/-- Lines are counted from one. -/
theorem line?_eq_none {n : UInt32} (hn : n.toNat = 0) : f.line? n = none := by
  rw [line?, lookUp_eq, hn]

/-- **What is given for a line.** -/
theorem line?_eq_getElem? {n : UInt32} {i : Nat} (hn : n.toNat = i + 1) :
    f.line? n = f.lines[i]?.map fun l => String.ofList (trimReturns l) := by
  rw [line?, lookUp_eq, hn]

end SourceFile

end Scriptlet
