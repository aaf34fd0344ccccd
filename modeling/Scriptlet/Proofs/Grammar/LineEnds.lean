import Scriptlet.Proofs.Grammar.Unexpected

/-!
# Rows that differ in their layout

The line ends that stand behind one another make one break in a row of tokens, and how many of them
there are is layout. `collapse` keeps one line end of each break. Two rows are alike if they are of
the same kinds then.

Rows that are alike start with tokens of one kind, and if this is no line end, then what stands
behind it is alike, too. Behind a line end the two rows may be in the middle of a break, and are
alike again only where it is over.

## Main definitions

* `Grammar.collapse` — kinds of tokens with a single line end for each break
* `Grammar.Alike`, `Grammar.AlikeBehind` — rows that are alike, now or behind the next break

## Main results

* `Grammar.Alike.kind`, `tail`, `tail_of_newline` — how rows that are alike go on
* `Grammar.alike_withEnd` — marking the end keeps rows alike
-/

namespace Scriptlet

namespace Grammar

/-! ### Collapsing breaks -/

/-- Kinds of tokens with one line end in the place of line ends behind one another. -/
def collapse : List Token.Kind → List Token.Kind
  | [] => []
  | k :: ks => if k = .newline ∧ ks.head? = some .newline then collapse ks else k :: collapse ks

theorem collapse_cons_of_ne {k : Token.Kind} (hk : k ≠ .newline) (ks : List Token.Kind) :
    collapse (k :: ks) = k :: collapse ks := by
  rw [collapse, if_neg fun h => hk h.1]

@[simp] theorem firstKind_collapse (ks : List Token.Kind) :
    firstKind (collapse ks) = firstKind ks := by
  induction ks with
  | nil => rfl
  | cons k ks ih =>
    rw [collapse]
    split
    · rename_i h
      obtain ⟨rfl, hks⟩ := h
      obtain ⟨ks', rfl⟩ := List.head?_eq_some_iff.1 hks
      exact ih
    · rfl

/-- A break at the start is the same line ends, whether they are dropped first or last. -/
theorem collapse_dropWhile (ks : List Token.Kind) :
    collapse (ks.dropWhile (· = .newline)) = (collapse ks).dropWhile (· = .newline) := by
  induction ks with
  | nil => rfl
  | cons k ks ih =>
    by_cases hk : k = .newline
    · rw [List.dropWhile_cons_of_pos (by simpa using hk), ih, collapse]
      split
      · rfl
      · rw [List.dropWhile_cons_of_pos (by simpa using hk)]
    · rw [List.dropWhile_cons_of_neg (by simpa using hk), collapse_cons_of_ne hk,
        List.dropWhile_cons_of_neg (by simpa using hk)]

theorem collapse_concat {k : Token.Kind} (hk : k ≠ .newline) (ks : List Token.Kind) :
    collapse (ks ++ [k]) = collapse ks ++ [k] := by
  induction ks with
  | nil => exact collapse_cons_of_ne hk []
  | cons l ks ih =>
    have hhead : (ks ++ [k]).head? = some .newline ↔ ks.head? = some .newline := by
      cases ks with
      | nil => simpa using hk
      | cons => rfl
    simp only [List.cons_append, collapse, hhead, ih]
    split <;> rfl

theorem getLast?_collapse (ks : List Token.Kind) : (collapse ks).getLast? = ks.getLast? := by
  induction ks with
  | nil => rfl
  | cons k ks ih =>
    rw [collapse]
    split
    · rename_i h
      obtain ⟨-, hks⟩ := h
      obtain ⟨ks', rfl⟩ := List.head?_eq_some_iff.1 hks
      rw [ih, List.getLast?_cons_cons]
    · rw [List.getLast?_cons, ih, List.getLast?_cons]

/-! ### Rows that are alike -/

/-- Two rows with their ends marked, of at most `n` and `n'` tokens, that differ in their layout
only. -/
structure Alike (n n' : Nat) (ts us : List Token) : Prop where
  collapse_eq : collapse (kinds ts) = collapse (kinds us)
  hasEnd : HasEnd ts
  hasEnd' : HasEnd us
  length_le : ts.length ≤ n
  length_le' : us.length ≤ n'

/-- Two rows, of at most `n` and `n'` tokens, that are alike behind the line ends that they start
with. -/
structure AlikeBehind (n n' : Nat) (ts us : List Token) : Prop where
  alike : Alike n n' (ts.dropWhile fun t => t.kind = .newline)
    (us.dropWhile fun t => t.kind = .newline)
  length_le : ts.length ≤ n
  length_le' : us.length ≤ n'

theorem firstKind_kinds (ts : List Token) : firstKind (kinds ts) = (nextToken ts).kind := by
  cases ts <;> rfl

theorem kinds_dropWhile (ts : List Token) :
    kinds (ts.dropWhile fun t => t.kind = .newline) = (kinds ts).dropWhile (· = .newline) := by
  rw [kinds, kinds, List.dropWhile_map]
  rfl

theorem HasEnd.exists_cons {ts : List Token} (h : HasEnd ts) : ∃ t us, ts = t :: us := by
  obtain ⟨t, ht, -⟩ := h
  exact List.exists_cons_of_ne_nil (List.ne_nil_of_mem ht)

theorem HasEnd.of_cons {t : Token} {ts : List Token} (h : HasEnd (t :: ts))
    (ht : t.kind ≠ .endOfFile) : HasEnd ts := by
  obtain ⟨u, hu, hk⟩ := h
  rcases List.mem_cons.1 hu with rfl | hu
  · exact absurd hk ht
  · exact ⟨u, hu, hk⟩

theorem HasEnd.dropWhile {ts : List Token} (h : HasEnd ts) :
    HasEnd (ts.dropWhile fun t => t.kind = .newline) := by
  induction ts with
  | nil => exact h
  | cons t ts ih =>
    by_cases ht : t.kind = .newline
    · rw [List.dropWhile_cons_of_pos (by simpa using ht)]
      exact ih (h.of_cons (by simp [ht]))
    · rwa [List.dropWhile_cons_of_neg (by simpa using ht)]

namespace Alike

variable {n n' m m' : Nat} {ts us : List Token}

theorem mono (h : Alike n n' ts us) (hn : n ≤ m) (hn' : n' ≤ m') : Alike m m' ts us :=
  { h with length_le := h.length_le.trans hn, length_le' := h.length_le'.trans hn' }

/-- Rows that are alike start with tokens of one kind. -/
theorem kind (h : Alike n n' ts us) : (nextToken ts).kind = (nextToken us).kind := by
  have hfirst := congrArg firstKind h.collapse_eq
  simpa only [firstKind_collapse, firstKind_kinds] using hfirst

/-- Rows with marked ends have tokens. -/
theorem exists_succ (h : Alike n n' ts us) : ∃ m m', n = m + 1 ∧ n' = m' + 1 := by
  obtain ⟨_, _, rfl⟩ := h.hasEnd.exists_cons
  obtain ⟨_, _, rfl⟩ := h.hasEnd'.exists_cons
  obtain ⟨m, rfl⟩ := Nat.exists_eq_add_of_lt h.length_le
  obtain ⟨m', rfl⟩ := Nat.exists_eq_add_of_lt h.length_le'
  exact ⟨_, _, rfl, rfl⟩

theorem not_zero : ¬ Alike 0 n' ts us := by
  intro h
  obtain ⟨m, _, h0, -⟩ := h.exists_succ
  exact absurd h0.symm (Nat.succ_ne_zero m)

/-- Behind a token that is no line end, rows that are alike stay so. -/
theorem tail (h : Alike (n + 1) (n' + 1) ts us) (hk : (nextToken ts).kind ≠ .newline)
    (hend : (nextToken ts).kind ≠ .endOfFile) : Alike n n' ts.tail us.tail := by
  have hkind := h.kind
  obtain ⟨t, ts, rfl⟩ := h.hasEnd.exists_cons
  obtain ⟨u, us, rfl⟩ := h.hasEnd'.exists_cons
  rw [nextToken_cons] at hk hend
  rw [nextToken_cons, nextToken_cons] at hkind
  have hcollapse := h.collapse_eq
  rw [kinds_cons, kinds_cons, collapse_cons_of_ne hk, collapse_cons_of_ne (hkind ▸ hk)] at hcollapse
  exact ⟨(List.cons.inj hcollapse).2, h.hasEnd.of_cons hend, h.hasEnd'.of_cons (hkind ▸ hend),
    Nat.le_of_succ_le_succ h.length_le, Nat.le_of_succ_le_succ h.length_le'⟩

/-- What does not stand behind an identifier in one row does not in the other. -/
theorem second_ne (h : Alike n n' ts us) {k : Token.Kind}
    (hne : ∀ x, (nextToken ts).kind = .identifier x → (nextToken ts.tail).kind ≠ k) :
    ∀ x, (nextToken us).kind = .identifier x → (nextToken us.tail).kind ≠ k := by
  intro x hx
  obtain ⟨m, m', rfl, rfl⟩ := h.exists_succ
  have hx' : (nextToken ts).kind = .identifier x := h.kind.trans hx
  have htail : Alike m m' ts.tail us.tail := h.tail (by simp [hx']) (by simp [hx'])
  exact htail.kind ▸ hne x hx'

/-- Rows that are alike are so behind the line ends that they start with. -/
theorem behind (h : Alike n n' ts us) : AlikeBehind n n' ts us where
  alike :=
    { collapse_eq := by
        rw [kinds_dropWhile, kinds_dropWhile, collapse_dropWhile, collapse_dropWhile, h.collapse_eq]
      hasEnd := h.hasEnd.dropWhile
      hasEnd' := h.hasEnd'.dropWhile
      length_le := (List.dropWhile_sublist _).length_le.trans h.length_le
      length_le' := (List.dropWhile_sublist _).length_le.trans h.length_le' }
  length_le := h.length_le
  length_le' := h.length_le'

/-- Behind one line end, rows that were alike are so behind the further ones. -/
theorem tail_of_newline (h : Alike (n + 1) (n' + 1) ts us)
    (hk : (nextToken ts).kind = .newline) : AlikeBehind n n' ts.tail us.tail := by
  have hkind := h.kind
  have hbehind := h.behind.alike
  obtain ⟨t, ts, rfl⟩ := h.hasEnd.exists_cons
  obtain ⟨u, us, rfl⟩ := h.hasEnd'.exists_cons
  rw [nextToken_cons] at hk
  rw [nextToken_cons, nextToken_cons, hk] at hkind
  rw [List.dropWhile_cons_of_pos (by simpa using hk),
    List.dropWhile_cons_of_pos (by simpa using hkind.symm)] at hbehind
  have hlen : ts.length ≤ n := Nat.le_of_succ_le_succ h.length_le
  have hlen' : us.length ≤ n' := Nat.le_of_succ_le_succ h.length_le'
  exact ⟨{ hbehind with
    length_le := (List.dropWhile_sublist _).length_le.trans hlen
    length_le' := (List.dropWhile_sublist _).length_le.trans hlen' }, hlen, hlen'⟩

/-- The bounds can be taken to be the numbers of tokens. -/
theorem lengths (h : Alike n n' ts us) : Alike ts.length us.length ts us :=
  { h with length_le := Nat.le.refl, length_le' := Nat.le.refl }

end Alike

theorem AlikeBehind.lengths {n n' : Nat} {ts us : List Token} (h : AlikeBehind n n' ts us) :
    AlikeBehind ts.length us.length ts us where
  alike := { h.alike with
    length_le := (List.dropWhile_sublist _).length_le
    length_le' := (List.dropWhile_sublist _).length_le }
  length_le := Nat.le.refl
  length_le' := Nat.le.refl

/-! ### Marking the end -/

theorem kinds_withEnd (ts : List Token) :
    kinds (withEnd ts) =
      if (kinds ts).getLast? = some .endOfFile then kinds ts else kinds ts ++ [.endOfFile] := by
  rw [withEnd, kinds, kinds, List.getLast?_map]
  cases hlast : ts.getLast? with
  | none =>
    obtain rfl := List.getLast?_eq_none_iff.1 hlast
    rfl
  | some t =>
    simp only [Option.map_some, Option.some.injEq]
    split
    · rfl
    · rw [List.map_append]
      rfl

/-- Rows that differ in their layout only are alike, once their ends are marked. -/
theorem alike_withEnd {ts us : List Token} (h : collapse (kinds ts) = collapse (kinds us)) :
    Alike (withEnd ts).length (withEnd us).length (withEnd ts) (withEnd us) where
  collapse_eq := by
    have hlast : (kinds ts).getLast? = (kinds us).getLast? := by
      rw [← getLast?_collapse, h, getLast?_collapse]
    rw [kinds_withEnd, kinds_withEnd, hlast]
    split
    · exact h
    · rw [collapse_concat (by simp), collapse_concat (by simp), h]
  hasEnd := hasEnd_withEnd ts
  hasEnd' := hasEnd_withEnd us
  length_le := Nat.le.refl
  length_le' := Nat.le.refl

end Grammar

end Scriptlet
