import Mathlib.Data.Prod.Lex
import Mathlib.Order.MinMax
import Scriptlet.Proofs.Source.Line

/-!
# Merged spans

Positions are compared like pairs of a line and a column, so they are in a linear order, and the
start and the stop of a merged span are a minimum and a maximum in it. All that is said about merged
spans follows from that: a span encloses a merged one exactly if it encloses both of its parts.

What a phrase spans is merged from the spans of its parts, which stand one behind another. Of these
only the first start and the last stop are left.

## Main definitions

* `Span.Encloses` — a span starts no later and stops no earlier than another one
* `Span.Consecutive` — spans that stand one behind another

## Main results

* `Span.encloses_merge_iff` — what encloses a merged span
* `Span.foldl_merge` — the merged span of a row
* `Span.merge_least` — merging gives the least span that encloses both
-/

namespace Scriptlet

namespace Position

variable {p q : Position}

/-- A position as a pair, for which the line decides first. -/
def key (p : Position) : ℕ ×ₗ ℕ := toLex (p.line.toNat, p.column.toNat)

theorem key_injective : Function.Injective key := by
  intro p q h
  obtain ⟨hline, hcolumn⟩ := Prod.mk.inj (toLex.injective h)
  exact congrArg₂ mk (UInt32.toNat_inj.1 hline) (UInt32.toNat_inj.1 hcolumn)

theorem le_iff_key : p ≤ q ↔ p.key ≤ q.key := by
  rw [key, key, Prod.Lex.toLex_le_toLex]
  show p.line < q.line ∨ p.line = q.line ∧ p.column ≤ q.column ↔ _
  rw [UInt32.lt_iff_toNat_lt, UInt32.le_iff_toNat_le, ← UInt32.toNat_inj]

instance : LinearOrder Position where
  le_refl _ := le_iff_key.2 le_rfl
  le_trans _ _ _ h h' := le_iff_key.2 ((le_iff_key.1 h).trans (le_iff_key.1 h'))
  le_antisymm _ _ h h' := key_injective ((le_iff_key.1 h).antisymm (le_iff_key.1 h'))
  le_total _ _ := by
    rw [le_iff_key, le_iff_key]
    exact le_total _ _
  toDecidableLE := inferInstance

end Position

namespace Span

variable {a b c : Span}

/-- A span covers another one: it starts no later and stops no earlier. -/
def Encloses (a b : Span) : Prop := a.start ≤ b.start ∧ b.stop ≤ a.stop

theorem Encloses.refl (a : Span) : a.Encloses a := ⟨le_rfl, le_rfl⟩

/-- **What encloses a merged span**: all that encloses both of its parts. -/
theorem encloses_merge_iff : c.Encloses (a.merge b) ↔ c.Encloses a ∧ c.Encloses b := by
  show c.start ≤ min a.start b.start ∧ max a.stop b.stop ≤ c.stop ↔ _
  rw [le_min_iff, max_le_iff]
  exact and_and_and_comm

theorem merge_comm (a b : Span) : a.merge b = b.merge a := by
  rw [merge, merge, min_comm, max_comm]

theorem merge_assoc (a b c : Span) : (a.merge b).merge c = a.merge (b.merge c) := by
  simp only [merge, min_assoc, max_assoc]

theorem merge_self (a : Span) : a.merge a = a := by
  rw [merge, min_self, max_self]

/-- A merged span starts no later than it stops if its parts do. -/
theorem start_le_stop_merge (ha : a.start ≤ a.stop) : (a.merge b).start ≤ (a.merge b).stop :=
  (min_le_left _ _).trans (ha.trans (le_max_left _ _))

/-- Spans that stand one behind another: each starts no later than it stops, and none stops later
than one behind it starts. -/
structure Consecutive (spans : List Span) : Prop where
  forward : ∀ s ∈ spans, s.start ≤ s.stop
  apart : spans.Pairwise fun a b => a.stop ≤ b.start

theorem Consecutive.of_append {spans more : List Span} (h : Consecutive (spans ++ more)) :
    Consecutive spans :=
  ⟨fun s hs => h.forward s (List.mem_append_left _ hs), (List.pairwise_append.1 h.apart).1⟩

/-- **The merged span of a row** goes from its first start to its last stop. -/
theorem foldl_merge {first : Span} {rest : List Span} (h : Consecutive (first :: rest)) :
    rest.foldl merge first =
      ⟨first.start, ((first :: rest).getLast (List.cons_ne_nil _ _)).stop⟩ := by
  -- from the end, so that the span merged so far is known to stop before the last one starts
  induction rest using List.reverseRecOn with
  | nil => rfl
  | append_singleton rest last ih =>
    rw [← List.cons_append] at h
    have hapart : ∀ s ∈ first :: rest, s.stop ≤ last.start := fun s hs =>
      (List.pairwise_append.1 h.apart).2.2 s hs last (List.mem_singleton_self _)
    have hlast : last.start ≤ last.stop :=
      h.forward last (List.mem_append_right _ (List.mem_singleton_self _))
    have hfirst : first.start ≤ first.stop := h.forward first (by simp)
    rw [List.foldl_append, ih h.of_append, List.foldl_cons, List.foldl_nil, merge_of_le]
    · simp
    · exact hfirst.trans (hapart first List.mem_cons_self)
    · exact (hapart _ (List.getLast_mem _)).trans hlast

/-- **Merging gives the least span that encloses both.** It does not matter in which order spans are
merged, nor whether one comes up twice; the merged span encloses both, and is enclosed by all that
do. It does not stop before it starts, if neither of the two does. For spans that stand one behind
another it goes from the first start to the last stop. -/
theorem merge_least :
    (∀ a b : Span, a.merge b = b.merge a) ∧
      (∀ a b c : Span, (a.merge b).merge c = a.merge (b.merge c)) ∧
      (∀ a : Span, a.merge a = a) ∧
      (∀ a b : Span, (a.merge b).Encloses a ∧ (a.merge b).Encloses b) ∧
      (∀ a b c : Span, c.Encloses a → c.Encloses b → c.Encloses (a.merge b)) ∧
      (∀ a b : Span, a.start ≤ a.stop → b.start ≤ b.stop →
        (a.merge b).start ≤ (a.merge b).stop) ∧
      ∀ (spans : List Span) (hne : spans ≠ []), Consecutive spans →
        spans.tail.foldl merge (spans.head hne) =
          ⟨(spans.head hne).start, (spans.getLast hne).stop⟩ := by
  refine ⟨merge_comm, merge_assoc, merge_self, fun a b => encloses_merge_iff.1 (.refl _),
    fun a b c ha hb => encloses_merge_iff.2 ⟨ha, hb⟩, fun a b ha _ => start_le_stop_merge ha,
    fun spans hne h => ?_⟩
  obtain ⟨first, rest, rfl⟩ := List.exists_cons_of_ne_nil hne
  exact foldl_merge h

/-- The second span ends where the third one starts, on a later line but in an earlier column than
where it started itself. -/
theorem merge_least_small :
    let a : Span := ⟨⟨1, 5⟩, ⟨1, 9⟩⟩
    let b : Span := ⟨⟨2, 7⟩, ⟨3, 2⟩⟩
    let c : Span := ⟨⟨3, 2⟩, ⟨3, 2⟩⟩
    Consecutive [a, b, c] ∧ [b, c].foldl merge a = ⟨⟨1, 5⟩, ⟨3, 2⟩⟩ ∧
      (Encloses ⟨⟨1, 5⟩, ⟨3, 2⟩⟩ a ∧ Encloses ⟨⟨1, 5⟩, ⟨3, 2⟩⟩ b) ∧
      Encloses ⟨⟨1, 5⟩, ⟨3, 2⟩⟩ (a.merge b) ∧ (a.merge b).start ≤ (a.merge b).stop := by
  intro a b c
  have hspans : Consecutive [a, b, c] := ⟨by decide, by decide⟩
  have hboth : Encloses ⟨⟨1, 5⟩, ⟨3, 2⟩⟩ a ∧ Encloses ⟨⟨1, 5⟩, ⟨3, 2⟩⟩ b :=
    ⟨⟨by decide, by decide⟩, by decide, by decide⟩
  obtain ⟨-, -, -, -, hleast, hforward, hrow⟩ := merge_least
  exact ⟨hspans, hrow [a, b, c] nofun hspans, hboth, hleast a b _ hboth.1 hboth.2,
    hforward a b (by decide) (by decide)⟩

end Span

end Scriptlet
