import Scriptlet.Proofs.Run.Blame
import Scriptlet.Proofs.Run.Depth
import Scriptlet.Proofs.Run.Statement

/-!
# Which names are bound

A script has no branches, so which names are bound in front of a statement can be read off the
function: its parameters, and what the statements before declare. No name is bound twice, so a name
keeps the value that it gets first.

The induction is on the number of statements that a call has run. It carries both halves, the names
and their values, since a declaration is evaluated in the scope that was reached in front of it.

## Main definitions

* `ScriptFunction.namesBefore` — the names that are bound in front of a statement
* `Scope.Binds` — a scope binds these names and no others
* `Interpreter.Bound` — the value that a call gives a name first

## Main results

* `ends_bindAll_scope` — what binding parameters does, and when it fails
* `Interpreter.get?_of_invokeTo` — what is bound in front of a statement
-/

namespace Scriptlet

variable {σ α : Type}

/-! ### Names of a function -/

/-- The name that a statement declares. -/
def Stmt.declares? : Stmt → Option String
  | declaration name _ _ => some name.name
  | result _ _ | expression _ _ => none

/-- The names that statements declare. -/
def declaredNames (body : List Stmt) : List String := body.filterMap Stmt.declares?

def ScriptFunction.paramNames (f : ScriptFunction) : List String := f.params.map Identifier.name

/-- The parameters, and the names that are declared in front of the `i`-th statement. -/
def ScriptFunction.namesBefore (f : ScriptFunction) (i : Nat) : List String :=
  f.paramNames ++ declaredNames (f.body.take i)

theorem declaredNames_cons (stmt : Stmt) (body : List Stmt) :
    declaredNames (stmt :: body) = stmt.declares?.toList ++ declaredNames body := by
  rw [declaredNames, List.filterMap_cons]
  cases stmt.declares? <;> rfl

/-! ### What scopes bind -/

/-- These names are bound, and no others. -/
def Scope.Binds (s : Scope) (xs : List String) : Prop := ∀ x, (s.get? x).isSome ↔ x ∈ xs

theorem Scope.binds_empty : (∅ : Scope).Binds [] := by
  intro x
  show (Dictionary.get? ∅ x).isSome ↔ x ∈ []
  simp

/-- Only a new name can be bound. -/
theorem Scope.get?_eq_none_of_declare? {s t : Scope} {name : String} {v : Value}
    (h : s.declare? name v = some t) : s.get? name = none := by
  by_contra hbound
  rw [declare?_eq_none_iff.2 (Option.isSome_iff_ne_none.2 hbound)] at h
  cases h

theorem Scope.get?_eq_some_iff_of_declare? {s t : Scope} {name : String} {v : Value}
    (h : s.declare? name v = some t) (x : String) (w : Value) :
    t.get? x = some w ↔ s.get? x = some w ∨ x = name ∧ w = v := by
  rw [get?_of_declare? h]
  by_cases hx : x = name
  · simp [hx, get?_eq_none_of_declare? h, eq_comm]
  · simp [hx]

theorem Scope.Binds.not_mem_of_declare? {s t : Scope} {xs : List String} {name : String} {v : Value}
    (hs : s.Binds xs) (h : s.declare? name v = some t) : name ∉ xs := by
  rw [← hs name, get?_eq_none_of_declare? h]
  exact Bool.false_ne_true

theorem Scope.Binds.declare {s t : Scope} {xs : List String} {name : String} {v : Value}
    (hs : s.Binds xs) (h : s.declare? name v = some t) : t.Binds (xs ++ [name]) := by
  intro x
  rw [Option.isSome_iff_exists]
  simp only [get?_eq_some_iff_of_declare? h, exists_or, ← Option.isSome_iff_exists, hs x,
    exists_and_left, exists_eq, and_true, List.mem_append, List.mem_singleton]

theorem Run.Ends.imp {Q Q' : α → Prop} {E : RuntimeError → Prop} {m : Run σ α} (hm : m.Ends Q E)
    (hQ : ∀ a, Q a → Q' a) : m.Ends Q' E :=
  fun h => ⟨fun a ha => hQ a ((hm h).1 a ha), (hm h).2⟩

theorem ends_bindNew_scope (s : Scope) (name : Identifier) (v : Value) :
    (bindNew s name v : Run σ Scope).Ends (fun t => s.declare? name.name v = some t)
      fun _ => (s.get? name.name).isSome := by
  rw [bindNew]
  cases hd : s.declare? name.name v with
  | some t => exact .of_pure rfl
  | none => exact .of_fail (Scope.declare?_eq_none_iff.1 hd)

/-- Binding parameters adds them with their arguments, and fails only if a name comes twice. -/
theorem ends_bindAll_scope {ps : List (Identifier × Value)} : ∀ {s : Scope} {xs : List String},
    s.Binds xs → xs.Nodup →
      (bindAll s ps : Run σ Scope).Ends
        (fun t => (xs ++ ps.map (·.1.name)).Nodup ∧ t.Binds (xs ++ ps.map (·.1.name)) ∧
          ∀ x v, t.get? x = some v ↔
            s.get? x = some v ∨ ∃ p ∈ ps, p.1.name = x ∧ p.2 = v)
        fun _ => ¬ (xs ++ ps.map (·.1.name)).Nodup := by
  induction ps with
  | nil =>
    intro s xs hs hxs
    rw [List.map_nil, List.append_nil]
    exact .of_pure ⟨hxs, hs, by simp⟩
  | cons p ps ih =>
    intro s xs hs hxs
    have hnames : xs ++ (p :: ps).map (·.1.name) = xs ++ [p.1.name] ++ ps.map (·.1.name) := by
      rw [List.map_cons, List.append_assoc, List.singleton_append]
    rw [bindAll]
    refine .bind ((ends_bindNew_scope s p.1 p.2).mono fun _ hbound hn => ?_) fun t ht => ?_
    · exact (List.nodup_append.1 hn).2.2 _ ((hs _).1 hbound) _ List.mem_cons_self rfl
    · have hxs' : (xs ++ [p.1.name]).Nodup := List.nodup_append.2 ⟨hxs, List.nodup_singleton _,
        fun a ha b hb hab => hs.not_mem_of_declare? ht (List.mem_singleton.1 hb ▸ hab ▸ ha)⟩
      rw [hnames]
      refine (ih (hs.declare ht) hxs').imp fun u hu => ⟨hu.1, hu.2.1, fun x v => ?_⟩
      rw [hu.2.2, Scope.get?_eq_some_iff_of_declare? ht, or_assoc, List.exists_mem_cons_iff,
        @eq_comm _ x, @eq_comm _ v]

theorem map_name_zip {f : ScriptFunction} {args : List Value} (h : f.arity = args.length) :
    (f.params.zip args).map (·.1.name) = f.paramNames := by
  have hfst : (f.params.zip args).map Prod.fst = f.params := List.map_fst_zip h.le
  rw [ScriptFunction.paramNames, ← hfst, List.map_map, hfst]
  rfl

/-! ### What is bound in front of a statement -/

/-- A statement that does not end the call either declares a name or leaves the scope alone. -/
theorem Stmt.cases_of_step {call : Caller σ} {function : String} {stmt : Stmt} {s t : Scope}
    {h k : σ} {es : List Event} (ho : stmt.step call function s h = ⟨.ok (.next t), k, es⟩) :
    (∃ name value span v k' es', stmt = .declaration name value span ∧
      value.eval call s h = ⟨.ok v, k', es'⟩ ∧ s.declare? name.name v = some t) ∨
    stmt.declares? = none ∧ t = s := by
  cases stmt with
  | declaration name value span =>
    obtain ⟨v, h₁, es₁, _, hv, htell, rfl⟩ := Run.exists_of_bind_eq_ok ho
    obtain ⟨_, h₂, _, _, -, hrest, rfl⟩ := Run.exists_of_bind_eq_ok htell
    obtain ⟨s', _, _, _, hbind, hnext, rfl⟩ := Run.exists_of_bind_eq_ok hrest
    cases hnext
    exact .inl ⟨name, value, span, v, h₁, es₁, rfl, hv,
      (ends_bindNew_scope s name v h₂).1 t (by rw [hbind])⟩
  | expression value span =>
    obtain ⟨_, _, _, _, -, hnext, rfl⟩ := Run.exists_of_bind_eq_ok ho
    cases hnext
    exact .inr ⟨rfl, rfl⟩
  | result value span =>
    obtain ⟨_, _, _, _, -, hrest, rfl⟩ := Run.exists_of_bind_eq_ok ho
    obtain ⟨_, _, _, _, -, hleave, rfl⟩ := Run.exists_of_bind_eq_ok hrest
    cases hleave

theorem ScriptFunction.namesBefore_succ {f : ScriptFunction} {i : Nat} {stmt : Stmt}
    (h : f.body[i]? = some stmt) :
    f.namesBefore (i + 1) = f.namesBefore i ++ stmt.declares?.toList := by
  have hone : declaredNames [stmt] = stmt.declares?.toList := by
    rw [declaredNames_cons, declaredNames, List.filterMap_nil, List.append_nil]
  rw [namesBefore, namesBefore, List.take_add_one, h, Option.toList_some, declaredNames,
    List.filterMap_append, List.append_assoc, ← declaredNames, ← declaredNames, hone]

namespace Interpreter

variable (it : Interpreter σ)

/-- The value that a call gives a name first, if the call is in front of its `i`-th statement: an
argument, or what the declaration of the name has evaluated to. -/
inductive Bound (budget : Nat) (f : ScriptFunction) (args : List Value) (span : Span) (h : σ)
    (i : Nat) : String → Value → Prop
  | param {p : Identifier} {v : Value} (hp : (p, v) ∈ f.params.zip args) :
      Bound budget f args span h i p.name v
  | declaration {j : Nat} {name : Identifier} {value : Expr} {dspan : Span} {t : Scope} {k k' : σ}
      {es es' : List Event} {v : Value} (hj : j < i)
      (hs : f.body[j]? = some (.declaration name value dspan))
      (hr : it.invokeTo budget f args span j h = ⟨.ok (.next t), k, es⟩)
      (hv : value.eval (it.callAt budget) t k = ⟨.ok v, k', es'⟩) :
      Bound budget f args span h i name.name v

variable {it} {budget : Nat} {f : ScriptFunction} {args : List Value} {span : Span} {h : σ}

theorem Bound.mono {i j : Nat} {x : String} {v : Value} (hb : it.Bound budget f args span h i x v)
    (hij : i ≤ j) : it.Bound budget f args span h j x v := by
  cases hb with
  | param hp => exact .param hp
  | declaration hj hs hr hv => exact .declaration (Nat.lt_of_lt_of_le hj hij) hs hr hv

/-- A statement that declares nothing gives no name a value. -/
theorem bound_succ_iff_of_declares {i : Nat} {x : String} {v : Value}
    (hi : ∀ stmt, f.body[i]? = some stmt → stmt.declares? = none) :
    it.Bound budget f args span h (i + 1) x v ↔ it.Bound budget f args span h i x v := by
  refine ⟨fun hb => ?_, fun hb => hb.mono (Nat.le_succ i)⟩
  cases hb with
  | param hp => exact .param hp
  | declaration hj hs hr hv =>
    rcases Nat.lt_succ_iff_lt_or_eq.1 hj with hj | rfl
    · exact .declaration hj hs hr hv
    · cases hi _ hs

/-- A declaration gives its name the value that it has evaluated to. -/
theorem bound_succ_iff_of_declaration {i : Nat} {name : Identifier} {value : Expr} {dspan : Span}
    {t : Scope} {k k' : σ} {es es' : List Event} {v : Value}
    (hs : f.body[i]? = some (.declaration name value dspan))
    (hr : it.invokeTo budget f args span i h = ⟨.ok (.next t), k, es⟩)
    (hv : value.eval (it.callAt budget) t k = ⟨.ok v, k', es'⟩) (x : String) (w : Value) :
    it.Bound budget f args span h (i + 1) x w ↔
      it.Bound budget f args span h i x w ∨ x = name.name ∧ w = v := by
  constructor
  · intro hb
    cases hb with
    | param hp => exact .inl (.param hp)
    | declaration hj hs' hr' hv' =>
      rcases Nat.lt_succ_iff_lt_or_eq.1 hj with hj | rfl
      · exact .inl (.declaration hj hs' hr' hv')
      · -- the call reaches a statement in one state, so the declaration has one value
        rw [hs] at hs'
        cases hs'
        rw [hr] at hr'
        cases hr'
        rw [hv] at hv'
        cases hv'
        exact .inr ⟨rfl, rfl⟩
  · rintro (hb | ⟨rfl, rfl⟩)
    · exact hb.mono (Nat.le_succ i)
    · exact .declaration (Nat.lt_succ_self i) hs hr hv

/-- **What is bound in front of a statement**: the parameters and the names declared before, each to
the value that it got first. -/
theorem get?_of_invokeTo {i : Nat} : ∀ {t : Scope} {k : σ} {es : List Event},
    it.invokeTo budget f args span i h = ⟨.ok (.next t), k, es⟩ →
      t.Binds (f.namesBefore i) ∧
        ∀ x v, t.get? x = some v ↔ it.Bound budget f args span h i x v := by
  induction i with
  | zero =>
    intro t k es ho
    obtain ⟨_, _, _, _, harity, htell, rfl⟩ := Run.exists_of_bind_eq_ok ho
    obtain ⟨_, h₁, _, _, -, hrest, rfl⟩ := Run.exists_of_bind_eq_ok htell
    obtain ⟨s, _, _, _, hbind, hnext, rfl⟩ := Run.exists_of_bind_eq_ok hrest
    cases hnext
    have harity : f.arity = args.length := by
      by_contra hne
      rw [checkArity, if_neg hne] at harity
      cases harity
    obtain ⟨-, hbinds, hget⟩ :=
      (@ends_bindAll_scope σ (f.params.zip args) ∅ [] Scope.binds_empty .nil h₁).1 t (by rw [hbind])
    rw [map_name_zip harity, List.nil_append] at hbinds
    refine ⟨?_, fun x v => ?_⟩
    · rwa [ScriptFunction.namesBefore, List.take_zero, declaredNames, List.filterMap_nil,
        List.append_nil]
    · rw [hget]
      constructor
      · rintro (hx | ⟨p, hp, rfl, rfl⟩)
        · cases hx
        · exact .param hp
      · rintro (hp | ⟨hj, -, -, -⟩)
        · exact .inr ⟨_, hp, rfl, rfl⟩
        · exact absurd hj (Nat.not_lt_zero _)
  | succ i ih =>
    intro t k es ho
    cases hs : f.body[i]? with
    | none =>
      have hnames : f.namesBefore (i + 1) = f.namesBefore i := by
        rw [ScriptFunction.namesBefore, List.take_add_one, hs, Option.toList_none, List.append_nil,
          ScriptFunction.namesBefore]
      rw [invokeTo_succ_of_none it hs] at ho
      obtain ⟨hbinds, hget⟩ := ih ho
      rw [hnames]
      refine ⟨hbinds, fun x v => ?_⟩
      rw [hget, bound_succ_iff_of_declares fun stmt hstmt => ?_]
      rw [hs] at hstmt
      cases hstmt
    | some stmt =>
      rw [invokeTo_succ it hs] at ho
      obtain ⟨x, h₁, es₁, es₂, hto, hstep, rfl⟩ := Run.exists_of_bind_eq_ok ho
      cases x with
      | leave v => cases hstep
      | next s =>
        obtain ⟨hbinds, hget⟩ := ih hto
        rw [ScriptFunction.namesBefore_succ hs]
        rcases Stmt.cases_of_step hstep with
          ⟨name, value, dspan, v, k', es', rfl, hv, hd⟩ | ⟨hnone, rfl⟩
        · refine ⟨hbinds.declare hd, fun x w => ?_⟩
          rw [Scope.get?_eq_some_iff_of_declare? hd, hget,
            bound_succ_iff_of_declaration hs hto hv]
        · rw [hnone, Option.toList_none, List.append_nil]
          refine ⟨hbinds, fun x w => ?_⟩
          rw [hget, bound_succ_iff_of_declares fun stmt' h' => ?_]
          rw [hs] at h'
          cases h'
          exact hnone

end Interpreter

end Scriptlet
