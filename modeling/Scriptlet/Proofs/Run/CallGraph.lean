import Mathlib.Data.Finset.Basic
import Mathlib.Data.List.Chain
import Mathlib.Logic.Relation
import Mathlib.Order.Lattice.Nat
import Scriptlet.Proofs.Run.Callees

/-!
# The graph of calls

One function of a program calls another if the name of the other stands for it and is called in a
live statement of the first. How long the paths of calls from a function can get is bounded exactly
if no function that they reach comes back to itself: a program has only so many functions.

## Main definitions

* `Program.Calls` — a function has a live call of another
* `Program.pathLengths` — how many functions the paths of calls from a function can have
* `Program.Acyclic` — no function reached from a function comes back to itself

## Main results

* `Program.Acyclic.exists_isGreatest` — paths have a greatest length if no function comes back
* `Program.acyclic_of_bddAbove` — no function comes back if lengths are bounded
-/

namespace Scriptlet

namespace Program

variable {p : Program} {f g : ScriptFunction}

/-- A live statement of `f` has a call of a name that stands for `g`. -/
def Calls (p : Program) (f g : ScriptFunction) : Prop :=
  ∃ c ∈ liveCallees f.body, p.get? c.name = some (.script g)

/-- The numbers of functions on the paths of calls that start with `f`. -/
def pathLengths (p : Program) (f : ScriptFunction) : Set Nat :=
  {n | ∃ l, (f :: l).IsChain p.Calls ∧ n = (f :: l).length}

/-- No function that is reached from `f` comes back to itself. -/
def Acyclic (p : Program) (f : ScriptFunction) : Prop :=
  ∀ g, Relation.ReflTransGen p.Calls f g → ¬ Relation.TransGen p.Calls g g

/-! ### Lengths of paths -/

theorem one_mem_pathLengths (p : Program) (f : ScriptFunction) : 1 ∈ p.pathLengths f :=
  ⟨[], .singleton f, rfl⟩

theorem succ_mem_pathLengths {n : Nat} (h : p.Calls f g) (hn : n ∈ p.pathLengths g) :
    n + 1 ∈ p.pathLengths f := by
  obtain ⟨l, hl, rfl⟩ := hn
  exact ⟨g :: l, List.isChain_cons_cons.2 ⟨h, hl⟩, rfl⟩

/-- A path is a single function, or a call followed by a path. -/
theorem pathLengths_cases {n : Nat} (hn : n ∈ p.pathLengths f) :
    n = 1 ∨ ∃ g m, p.Calls f g ∧ m ∈ p.pathLengths g ∧ n = m + 1 := by
  obtain ⟨l, hl, rfl⟩ := hn
  cases l with
  | nil => exact .inl rfl
  | cons g l =>
    obtain ⟨hg, hl⟩ := List.isChain_cons_cons.1 hl
    exact .inr ⟨g, (g :: l).length, hg, ⟨l, hl, rfl⟩, rfl⟩

/-- Behind at least one call, paths are shorter. -/
theorem exists_lt_of_transGen {n : Nat} (h : Relation.TransGen p.Calls f g)
    (hn : n ∈ p.pathLengths g) : ∃ m ∈ p.pathLengths f, n < m := by
  induction h using Relation.TransGen.head_induction_on with
  | single h => exact ⟨n + 1, succ_mem_pathLengths h hn, Nat.lt_succ_self n⟩
  | head h _ ih =>
    obtain ⟨m, hm, hlt⟩ := ih
    exact ⟨m + 1, succ_mem_pathLengths h hm, Nat.lt_succ_of_lt hlt⟩

/-- If lengths are bounded, no function comes back to itself. -/
theorem acyclic_of_bddAbove (h : BddAbove (p.pathLengths f)) : p.Acyclic f := by
  obtain ⟨b, hb⟩ := h
  intro g hreach hcycle
  -- what is reached from `f` has no longer paths than `f` has
  have hg : ∀ n ∈ p.pathLengths g, n ≤ b := by
    intro n hn
    rcases Relation.reflTransGen_iff_eq_or_transGen.1 hreach with rfl | hfg
    · exact hb hn
    · obtain ⟨m, hm, hlt⟩ := exists_lt_of_transGen hfg hn
      exact hlt.le.trans (hb hm)
  -- a path from `g` can be made longer by going around, so none can be longest
  have hgrow : ∀ n, ∃ m ∈ p.pathLengths g, n < m := by
    intro n
    induction n with
    | zero => exact ⟨1, one_mem_pathLengths p g, Nat.one_pos⟩
    | succ n ih =>
      obtain ⟨m, hm, hlt⟩ := ih
      obtain ⟨k, hk, hmk⟩ := exists_lt_of_transGen hcycle hm
      exact ⟨k, hk, by omega⟩
  obtain ⟨m, hm, hlt⟩ := hgrow b
  exact absurd (hg m hm) (Nat.not_le.2 hlt)

/-! ### Programs are finite -/

/-- The functions of a program. -/
def scripts (p : Program) : List ScriptFunction :=
  p.definitions.entries.filterMap fun e =>
    match e.2 with
    | .script f => some f
    | .native _ => none

theorem Calls.mem_scripts (h : p.Calls f g) : g ∈ p.scripts := by
  obtain ⟨c, -, hc⟩ := h
  obtain ⟨e, he, hg⟩ := Option.map_eq_some_iff.1 hc
  refine List.mem_filterMap.2 ⟨e, List.mem_of_find?_eq_some he, ?_⟩
  rw [hg]

/-- On a path of calls no function stands twice if none comes back to itself. -/
theorem Acyclic.nodup {l : List ScriptFunction} (h : p.Acyclic f)
    (hl : (f :: l).IsChain p.Calls) : (f :: l).Nodup := by
  have hpairs : (f :: l).Pairwise (Relation.TransGen p.Calls) :=
    List.isChain_iff_pairwise.1 (hl.imp fun _ _ => .single)
  refine hpairs.imp_of_mem fun {a b} ha _ hab heq => ?_
  subst heq
  refine h a ?_ hab
  rcases List.mem_cons.1 ha with rfl | ha
  · exact .refl
  · exact ((List.pairwise_cons.1 hpairs).1 a ha).to_reflTransGen

/-- **Paths of calls have a greatest length** if no function comes back to itself. -/
theorem Acyclic.exists_isGreatest (h : p.Acyclic f) : ∃ n, IsGreatest (p.pathLengths f) n := by
  have hbdd : BddAbove (p.pathLengths f) := by
    refine ⟨p.scripts.length + 1, ?_⟩
    rintro _ ⟨l, hl, rfl⟩
    have hmem : l ⊆ p.scripts := by
      intro g hg
      have hpairs := List.isChain_iff_pairwise.1 (hl.imp fun _ _ => Relation.TransGen.single)
      obtain ⟨g', -, hg'⟩ := Relation.TransGen.tail'_iff.1 ((List.pairwise_cons.1 hpairs).1 g hg)
      exact hg'.mem_scripts
    have hlen := (List.subperm_of_subset (List.nodup_cons.1 (h.nodup hl)).2 hmem).length_le
    rw [List.length_cons]
    omega
  exact ⟨sSup (p.pathLengths f), Nat.sSup_mem ⟨1, one_mem_pathLengths p f⟩ hbdd,
    fun n hn => le_csSup hbdd hn⟩

end Program

end Scriptlet
