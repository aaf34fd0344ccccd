import Scriptlet.Grammar.Error
import Scriptlet.Program

/-!
# Programs as lists of definitions

A program is built by adding one definition after the other, each under a name that has none yet.
It then consists of exactly these definitions, and the order in which they came does not show.

## Main definitions

* `Program.Fresh` — definitions that can be added one after the other
* `Program.ConsistsOf` — a program has exactly the given definitions, under their own names
* `Program.addAll` — adds definitions as long as each name is new

## Main results

* `Program.addAll_of_fresh`, `addAll_of_not_fresh` — fresh definitions can be added, and otherwise
  the first is to blame whose name is taken

* `Program.consistsOf_iff` — a program consists of definitions with different names exactly if it
  is what adding them gives
-/

namespace Scriptlet

namespace Dictionary

variable {α : Type}

theorem get?_eq_none_iff {d : Dictionary α} {name : String} :
    d.get? name = none ↔ ∀ e ∈ d.entries, e.1 ≠ name := by
  simp [get?]

theorem mem_of_get?_eq_some {d : Dictionary α} {name : String} {value : α}
    (h : d.get? name = some value) : (name, value) ∈ d.entries := by
  rw [get?, Option.map_eq_some_iff] at h
  obtain ⟨e, he, rfl⟩ := h
  obtain rfl : e.1 = name := by simpa using List.find?_some he
  exact List.mem_of_find?_eq_some he

/-- Every entry is found under its name, as no two have the same. -/
theorem get?_eq_some_of_mem {d : Dictionary α} {e : String × α} (h : e ∈ d.entries) :
    d.get? e.1 = some e.2 := by
  obtain ⟨pre, post, hsplit⟩ := List.append_of_mem h
  have hsorted := d.sorted
  rw [hsplit, List.pairwise_append] at hsorted
  have hbefore : ∀ a ∈ pre, a.1 ≠ e.1 := fun a ha heq =>
    String.lt_irrefl _ (heq ▸ hsorted.2.2 a ha e List.mem_cons_self)
  have hfind : d.entries.find? (fun a => a.1 = e.1) = some e :=
    List.find?_eq_some_iff_append.2 ⟨by simp, pre, post, hsplit, by simpa using hbefore⟩
  rw [get?, hfind]
  rfl

theorem insertEntry_perm {name : String} {value : α} {es : List (String × α)}
    (h : ∀ e ∈ es, e.1 ≠ name) : (insertEntry name value es).Perm ((name, value) :: es) := by
  induction es with
  | nil => exact .refl _
  | cons e es ih =>
    obtain ⟨hne, hes⟩ := List.forall_mem_cons.1 h
    rw [insertEntry]
    split
    · exact .refl _
    · rw [if_neg (Ne.symm hne)]
      exact ((ih hes).cons e).trans (.swap _ _ _)

/-- Inserting entries with new names, different from each other, keeps what was there and adds
exactly these entries. -/
theorem foldl_insert_perm {d : Dictionary α} {es : List (String × α)}
    (hnodup : (es.map Prod.fst).Nodup) (hnew : ∀ e ∈ es, d.get? e.1 = none) :
    (es.foldl (fun d e => d.insert e.1 e.2) d).entries.Perm (es ++ d.entries) := by
  induction es generalizing d with
  | nil => exact .refl _
  | cons e es ih =>
    obtain ⟨hne, hes⟩ := List.nodup_cons.1 hnodup
    obtain ⟨hd, hds⟩ := List.forall_mem_cons.1 hnew
    have hinsert : (d.insert e.1 e.2).entries.Perm (e :: d.entries) :=
      insertEntry_perm (get?_eq_none_iff.1 hd)
    have hnew' : ∀ x ∈ es, (d.insert e.1 e.2).get? x.1 = none := by
      intro x hx
      have hx' : x.1 ≠ e.1 := fun heq => hne (List.mem_map.2 ⟨x, hx, heq⟩)
      rw [get?_insert_of_ne _ _ hx']
      exact hds x hx
    exact (ih hes hnew').trans ((hinsert.append_left _).trans List.perm_middle)

/-- As entries are kept in the order of their names, a dictionary is determined by which entries it
has. -/
theorem eq_of_perm {d d' : Dictionary α} (h : d.entries.Perm d'.entries) : d = d' := by
  obtain ⟨es, hes⟩ := d
  obtain ⟨es', hes'⟩ := d'
  have : es = es' := List.Perm.eq_of_pairwise
    (fun a b _ _ hab hba => absurd (String.lt_trans hab hba) (String.lt_irrefl _)) hes hes' h
  subst this
  rfl

end Dictionary

namespace Program

/-- The entry of a definition under its own name. -/
def entry (d : Definition) : String × Definition := (d.name.name, d)

/-- The names of the definitions differ from each other and from those that `p` has. -/
def Fresh (p : Program) (ds : List Definition) : Prop :=
  (ds.map fun d => d.name.name).Nodup ∧ ∀ d ∈ ds, p.get? d.name.name = none

/-- `p` has exactly the given definitions, each under its own name. -/
def ConsistsOf (p : Program) (ds : List Definition) : Prop :=
  p.definitions.entries.Perm (ds.map entry)

theorem get?_add (p : Program) (d : Definition) (name : String) :
    (p.add d).get? name = if name = d.name.name then some d else p.get? name :=
  Dictionary.get?_insert _ _ _ _

theorem fresh_nil (p : Program) : p.Fresh [] := ⟨List.nodup_nil, List.forall_mem_nil _⟩

theorem fresh_cons {p : Program} {d : Definition} {ds : List Definition} :
    p.Fresh (d :: ds) ↔ p.get? d.name.name = none ∧ (p.add d).Fresh ds := by
  simp only [Fresh, List.map_cons, List.nodup_cons, List.forall_mem_cons, List.mem_map, get?_add]
  constructor
  · rintro ⟨⟨hd, hds⟩, hp, hps⟩
    refine ⟨hp, hds, fun e he => ?_⟩
    rw [if_neg fun h => hd ⟨e, he, h⟩]
    exact hps e he
  · rintro ⟨hp, hds, hps⟩
    refine ⟨⟨?_, hds⟩, hp, fun e he => ?_⟩
    · rintro ⟨e, he, h⟩
      have := hps e he
      rw [if_pos h] at this
      exact absurd this (by simp)
    · have := hps e he
      split at this
      · exact absurd this (by simp)
      · exact this

theorem fresh_append {p : Program} {ds es : List Definition} :
    p.Fresh (ds ++ es) ↔ p.Fresh ds ∧ (ds.foldl add p).Fresh es := by
  induction ds generalizing p with
  | nil => simp [fresh_nil]
  | cons d ds ih => rw [List.cons_append, fresh_cons, fresh_cons, ih, List.foldl_cons, and_assoc]

theorem fresh_empty_iff {ds : List Definition} :
    Fresh ∅ ds ↔ (ds.map fun d => d.name.name).Nodup :=
  and_iff_left fun _ _ => rfl

theorem definitions_foldl_add (p : Program) (ds : List Definition) :
    (ds.foldl add p).definitions =
      (ds.map entry).foldl (fun d e => d.insert e.1 e.2) p.definitions := by
  induction ds generalizing p with
  | nil => rfl
  | cons d ds ih => exact ih (p.add d)

/-- Adding fresh definitions keeps what was there and adds one entry for each. -/
theorem foldl_add_perm {p : Program} {ds : List Definition} (h : p.Fresh ds) :
    (ds.foldl add p).definitions.entries.Perm (ds.map entry ++ p.definitions.entries) := by
  rw [definitions_foldl_add]
  refine Dictionary.foldl_insert_perm ?_ (List.forall_mem_map.2 h.2)
  rw [List.map_map]
  exact h.1

/-- **What a program consists of**, if the names differ, is what was added to the empty one. -/
theorem consistsOf_iff {p : Program} {ds : List Definition}
    (h : (ds.map fun d => d.name.name).Nodup) : p.ConsistsOf ds ↔ p = ds.foldl add ∅ := by
  have hadd : (ds.foldl add ∅).definitions.entries.Perm (ds.map entry) := by
    have := foldl_add_perm (fresh_empty_iff.2 h)
    rwa [show (∅ : Program).definitions.entries = [] from rfl, List.append_nil] at this
  constructor
  · intro hp
    have : p.definitions = (ds.foldl add ∅).definitions :=
      Dictionary.eq_of_perm (hp.trans hadd.symm)
    exact congrArg Program.mk this
  · rintro rfl
    exact hadd

/-- What a program consists of is found under its own name. -/
theorem ConsistsOf.get?_of_mem {p : Program} {ds : List Definition} (h : p.ConsistsOf ds)
    {d : Definition} (hd : d ∈ ds) : p.get? d.name.name = some d :=
  Dictionary.get?_eq_some_of_mem (e := entry d) (h.mem_iff.2 (List.mem_map_of_mem hd))

/-- What is found in a program is one of its definitions, under its own name. -/
theorem ConsistsOf.of_get? {p : Program} {ds : List Definition} (h : p.ConsistsOf ds)
    {name : String} {d : Definition} (hd : p.get? name = some d) : d ∈ ds ∧ d.name.name = name := by
  have hentry := h.mem_iff.1 (Dictionary.mem_of_get?_eq_some hd)
  obtain ⟨d', hd', he⟩ := List.mem_map.1 hentry
  obtain ⟨rfl, rfl⟩ := Prod.mk.inj he
  exact ⟨hd', rfl⟩

/-! ### One after the other -/

/-- Adds definitions one after the other, up to the first whose name is taken. -/
def addAll (p : Program) : List Definition → Except ParseError Program
  | [] => .ok p
  | d :: ds =>
    match p.get? d.name.name with
    | some earlier => .error (.duplicateFunction d.name earlier.name.span)
    | none => (p.add d).addAll ds

theorem addAll_append (p : Program) (ds es : List Definition) :
    p.addAll (ds ++ es) = p.addAll ds >>= fun q => q.addAll es := by
  induction ds generalizing p with
  | nil => rfl
  | cons d ds ih =>
    rw [List.cons_append, addAll, addAll]
    cases p.get? d.name.name with
    | none => exact ih (p.add d)
    | some earlier => rfl

theorem addAll_cons (p : Program) (d : Definition) (ds : List Definition) :
    p.addAll (d :: ds) = p.addAll [d] >>= fun q => q.addAll ds :=
  p.addAll_append [d] ds

theorem addAll_of_fresh {p : Program} {ds : List Definition} (h : p.Fresh ds) :
    p.addAll ds = .ok (ds.foldl add p) := by
  induction ds generalizing p with
  | nil => rfl
  | cons d ds ih =>
    obtain ⟨hd, hds⟩ := fresh_cons.1 h
    rw [addAll, hd]
    exact ih hds

/-- Definitions that cannot be added fail at the first whose name is taken. -/
theorem addAll_of_not_fresh {p : Program} {ds : List Definition} (h : ¬ p.Fresh ds) :
    ∃ pre d post earlier, ds = pre ++ d :: post ∧ p.Fresh pre ∧
      (pre.foldl add p).get? d.name.name = some earlier ∧
      p.addAll ds = .error (.duplicateFunction d.name earlier.name.span) := by
  induction ds generalizing p with
  | nil => exact absurd (fresh_nil p) h
  | cons d ds ih =>
    cases hd : p.get? d.name.name with
    | some earlier =>
      refine ⟨[], d, ds, earlier, rfl, fresh_nil p, hd, ?_⟩
      rw [addAll, hd]
    | none =>
      have hds : ¬ (p.add d).Fresh ds := fun hds => h (fresh_cons.2 ⟨hd, hds⟩)
      obtain ⟨pre, e, post, earlier, rfl, hpre, hget, herror⟩ := ih hds
      refine ⟨d :: pre, e, post, earlier, rfl, fresh_cons.2 ⟨hd, hpre⟩, hget, ?_⟩
      rw [addAll, hd]
      exact herror

end Program

end Scriptlet
