import Scriptlet.Proofs.Grammar.Reading

/-!
# Reading expressions

The three levels of operators have no effect on what is read: once an operator has been taken, the
whole rest of the chain belongs to its right operand, so the levels further out find no operator
of theirs. An expression is therefore read by `rightFold`, which takes an operand and, if any
operator follows, that operator and an expression.

With the levels out of the way, reading with a budget accepts exactly the phrases of the grammar
that nest within the budget.

## Main results

* `Reader.expression_succ` — the levels collapse
* `Reader.expression_reads` — `expression n` reads the expressions that nest at most `n` deep
-/

namespace Scriptlet

open Grammar

namespace Reader

/-! ### The levels collapse -/

/-- An operand, and if any operator follows, that operator and a nested expression. -/
def rightFold (first nested : Reader Expr) : Reader Expr := do
  let lhs ← first
  match Operator.ofKind? (← peek).kind with
  | some op =>
    let opToken ← advance
    let rhs ← nested
    return .binary op.level lhs op opToken.span rhs (lhs.span.merge rhs.span)
  | none => return lhs

/-- `r` leaves no operator behind. -/
def Settled (r : Reader Expr) : Prop :=
  ∀ ⦃ts rest e⦄, r ts = .ok (e, rest) → Operator.ofKind? (nextToken rest).kind = none

variable {first nested : Reader Expr} {ts mid : List Token} {lhs : Expr} {level : Level}

theorem chain_of_error {e : ParseError} (h : first ts = .error e) :
    chain level first nested ts = .error e := by
  simp [chain, bind_apply, h]

/-- Without an operator of its level, a chain is its operand. -/
theorem chain_of_ne (h : first ts = .ok (lhs, mid))
    (hop : ∀ op, Operator.ofKind? (nextToken mid).kind = some op → op.level ≠ level) :
    chain level first nested ts = .ok (lhs, mid) := by
  rw [chain, bind_of_eq_ok _ h]
  cases hk : Operator.ofKind? (nextToken mid).kind with
  | none => simp [bind_apply, hk]
  | some op => simp [bind_apply, hk, hop op hk]

/-- With an operator of its level, a chain goes on with that operator. -/
theorem chain_of_eq {op : Operator} (h : first ts = .ok (lhs, mid))
    (hop : Operator.ofKind? (nextToken mid).kind = some op) (hl : op.level = level) :
    chain level first nested ts = rightFold first nested ts := by
  subst hl
  rw [chain, rightFold, bind_of_eq_ok _ h, bind_of_eq_ok _ h]
  simp [bind_apply, hop]

theorem rightFold_of_none (h : first ts = .ok (lhs, mid))
    (hop : Operator.ofKind? (nextToken mid).kind = none) :
    rightFold first nested ts = .ok (lhs, mid) := by
  rw [rightFold, bind_of_eq_ok _ h]
  simp [bind_apply, hop]

theorem rightFold_of_some {op : Operator} (h : first ts = .ok (lhs, mid))
    (hop : Operator.ofKind? (nextToken mid).kind = some op) :
    rightFold first nested ts =
      match nested mid.tail with
      | .ok (rhs, rest) =>
        .ok (.binary op.level lhs op (nextToken mid).span rhs (lhs.span.merge rhs.span), rest)
      | .error e => .error e := by
  rw [rightFold, bind_of_eq_ok _ h, bind_of_eq_ok _ (peek_apply mid)]
  simp only [hop]
  rw [bind_of_eq_ok _ (advance_apply mid), bind_apply]
  cases nested mid.tail <;> rfl

/-- A fold leaves no operator behind if no nested expression does. -/
theorem Settled.fold (hn : Settled nested) : Settled (rightFold first nested) := by
  intro ts rest e h
  cases ho : first ts with
  | error _ => simp [rightFold, bind_apply, ho] at h
  | ok p =>
    obtain ⟨lhs, mid⟩ := p
    cases hop : Operator.ofKind? (nextToken mid).kind with
    | none =>
      rw [rightFold_of_none ho hop] at h
      obtain ⟨-, rfl⟩ : lhs = e ∧ mid = rest := by simpa using h
      exact hop
    | some op =>
      rw [rightFold_of_some ho hop] at h
      cases hr : nested mid.tail with
      | error _ => simp [hr] at h
      | ok q =>
        obtain ⟨rhs, last⟩ := q
        obtain ⟨-, rfl⟩ := by simpa [hr] using h
        exact hn hr

/-- A further level finds nothing to do behind a fold. -/
theorem chain_of_rightFold {inner : Reader Expr} (hn : Settled nested)
    (h : inner ts = rightFold first nested ts) :
    chain level inner nested ts = rightFold first nested ts := by
  cases hr : rightFold first nested ts with
  | error e => exact chain_of_error (h.trans hr)
  | ok p =>
    obtain ⟨e, rest⟩ := p
    refine chain_of_ne (h.trans hr) fun op hop => ?_
    rw [hn.fold hr] at hop
    exact absurd hop (by simp)

/-- **The levels have no effect.** Reading level by level is a fold to the right, as the nested
expressions leave no operator behind. -/
theorem equality_eq_rightFold (hn : Settled nested) :
    equality nested = rightFold (operand nested) nested := by
  funext ts
  rw [equality, term, factor]
  cases ho : operand nested ts with
  | error e =>
    rw [chain_of_error (chain_of_error (chain_of_error ho)), rightFold, bind_apply, ho]
  | ok p =>
    obtain ⟨lhs, mid⟩ := p
    cases hop : Operator.ofKind? (nextToken mid).kind with
    | none =>
      have hne : ∀ level op, Operator.ofKind? (nextToken mid).kind = some op →
          op.level ≠ level := by simp [hop]
      rw [rightFold_of_none ho hop,
        chain_of_ne (chain_of_ne (chain_of_ne ho (hne _)) (hne _)) (hne _)]
    | some op =>
      have hne : ∀ level, op.level ≠ level →
          ∀ op', Operator.ofKind? (nextToken mid).kind = some op' → op'.level ≠ level := by
        intro level hl op' hop'
        rw [hop, Option.some.injEq] at hop'
        exact hop' ▸ hl
      -- the level of the operator takes the rest of the chain, and the levels inside it nothing
      cases hl : op.level with
      | factor => exact chain_of_rightFold hn (chain_of_rightFold hn (chain_of_eq ho hop hl))
      | term =>
        have hf : factor nested ts = .ok (lhs, mid) := chain_of_ne ho (hne .factor (by simp [hl]))
        rw [factor] at hf
        refine chain_of_rightFold hn ?_
        rw [chain_of_eq hf hop hl, rightFold_of_some hf hop, rightFold_of_some ho hop]
      | equality =>
        have hf : factor nested ts = .ok (lhs, mid) := chain_of_ne ho (hne .factor (by simp [hl]))
        have ht : term nested ts = .ok (lhs, mid) := chain_of_ne hf (hne .term (by simp [hl]))
        rw [term, factor] at ht
        rw [chain_of_eq ht hop hl, rightFold_of_some ht hop, rightFold_of_some ho hop]

theorem expression_settled : ∀ n, Settled (expression n)
  | 0 => by intro ts rest e h; simp [expression, bind_apply] at h
  | n + 1 => by
    rw [expression, equality_eq_rightFold (expression_settled n)]
    exact (expression_settled n).fold

/-- An expression with one more level of nesting is a fold over expressions without it. -/
theorem expression_succ (n : Nat) :
    expression (n + 1) = rightFold (operand (expression n)) (expression n) :=
  equality_eq_rightFold (expression_settled n)

/-! ### Operands -/

/-- What may follow an expression: no operator, which would belong to it, and no parenthesis, which
would make a call of a variable. -/
def EndsExpression (k : Token.Kind) : Prop :=
  Operator.ofKind? k = none ∧ k ≠ .symbol .lparen

theorem primary_reads : Reads primary anything fun us e => ∃ t, us = [t] ∧ IsPrimary t e where
  sound {ts rest e} h _ := by
    cases ts with
    | nil => simp [primary, bind_apply, nextToken, Token.endOfFile] at h
    | cons t us =>
      obtain ⟨kind, lexeme, span⟩ := t
      suffices hp : us = rest ∧ IsPrimary ⟨kind, lexeme, span⟩ e from
        ⟨[_], by rw [hp.1]; rfl, _, rfl, hp.2⟩
      cases kind with
      | number x =>
        obtain ⟨rfl, rfl⟩ := by simpa [primary, bind_apply, map_apply] using h
        exact ⟨rfl, .number rfl⟩
      | string s =>
        obtain ⟨rfl, rfl⟩ := by simpa [primary, bind_apply, map_apply] using h
        exact ⟨rfl, .string rfl⟩
      | identifier name =>
        obtain ⟨rfl, rfl⟩ := by simpa [primary, bind_apply, map_apply] using h
        exact ⟨rfl, .identifier rfl⟩
      | keyword k =>
        cases k with
        | trueKw =>
          obtain ⟨rfl, rfl⟩ := by simpa [primary, bind_apply, map_apply] using h
          exact ⟨rfl, .true rfl⟩
        | falseKw =>
          obtain ⟨rfl, rfl⟩ := by simpa [primary, bind_apply, map_apply] using h
          exact ⟨rfl, .false rfl⟩
        | _ => simp [primary, bind_apply] at h
      | _ => simp [primary, bind_apply] at h
  complete {us rest e} h _ := by
    obtain ⟨t, rfl, ht⟩ := h
    cases ht <;> simp_all [primary, bind_apply, map_apply]

/-- Arguments up to a closing parenthesis. -/
theorem arguments_reads {nested : Reader Expr} {phrase : List Token → Expr → Prop}
    (hn : Reads nested EndsExpression phrase)
    (hh : ∀ {us e}, phrase us e → ∃ t vs, us = t :: vs ∧ StartsOperand t.kind) :
    Reads (arguments nested) (· = .symbol .rparen) (Listed phrase) := by
  have hi : ∀ _ : List Expr, Reads nested EndsExpression fun us e => phrase us e ∧ True := by
    simpa using hn
  have hl := listed_reads hi ⟨rfl, by simp⟩ ⟨rfl, by simp⟩ hh id
  exact ⟨fun h hr => (hl.sound h hr).imp fun _ h => ⟨h.1, h.2.1⟩,
    fun h hr => hl.complete ⟨h, admitted_true⟩ hr⟩

theorem operand_of_ne {nested : Reader Expr} {ts : List Token}
    (h : ∀ name, (nextToken ts).kind = .identifier name →
      (nextToken ts.tail).kind ≠ .symbol .lparen) : operand nested ts = primary ts := by
  rw [operand, bind_of_eq_ok _ (peek_apply _)]
  cases hk : (nextToken ts).kind with
  | identifier name => simp [bind_apply, h name hk]
  | _ => rfl

theorem operand_cons_cons {nested : Reader Expr} {name lparen : Token} {n : String}
    {ts : List Token} (hn : name.kind = .identifier n) (hl : lparen.kind = .symbol .lparen) :
    operand nested (name :: lparen :: ts) =
      match arguments nested ts with
      | .ok (args, mid) =>
        match expect (.symbol .rparen) mid with
        | .ok (rparen, rest) => .ok (.call ⟨n, name.span⟩ args (name.span.merge rparen.span), rest)
        | .error e => .error e
      | .error e => .error e := by
  have hid : IsIdentifier [name] ⟨n, name.span⟩ := ⟨name.lexeme, by rw [← hn]⟩
  have hi : identifier (name :: lparen :: ts) = .ok (⟨n, name.span⟩, lparen :: ts) :=
    identifier_reads.complete hid trivial
  simp only [operand, bind_apply, peek_apply, nextToken_cons, hn, seesAfter_apply, List.tail_cons,
    hl, decide_true, if_true, hi, advance_apply]
  cases arguments nested ts with
  | error e => rfl
  | ok p =>
    obtain ⟨args, mid⟩ := p
    simp only
    cases expect (.symbol .rparen) mid <;> rfl

/-- An operand is a primary, or it is a call and what stands before its closing parenthesis was read
as arguments. -/
theorem operand_eq_ok {nested : Reader Expr} {ts rest : List Token} {e : Expr}
    (h : operand nested ts = .ok (e, rest)) :
    (∃ t, ts = t :: rest ∧ IsPrimary t e) ∨
      ∃ name n lparen us args rparen, ts = name :: lparen :: us ∧ name.kind = .identifier n ∧
        lparen.kind = .symbol .lparen ∧ rparen.kind = .symbol .rparen ∧
        arguments nested us = .ok (args, rparen :: rest) ∧
        e = .call ⟨n, name.span⟩ args (name.span.merge rparen.span) := by
  by_cases hcall : (∃ name, (nextToken ts).kind = .identifier name) ∧
      (nextToken ts.tail).kind = .symbol .lparen
  · obtain ⟨⟨n, hname⟩, hl⟩ := hcall
    obtain ⟨name, us, rfl, hid⟩ := exists_cons_of_nextToken hname (by simp)
    obtain ⟨lparen, vs, rfl, hlp⟩ : ∃ t vs, us = t :: vs ∧ t.kind = .symbol .lparen :=
      exists_cons_of_nextToken hl (by simp)
    rw [operand_cons_cons hid hlp] at h
    cases ha : arguments nested vs with
    | error _ => simp [ha] at h
    | ok p =>
      obtain ⟨args, mid⟩ := p
      cases hx : expect (.symbol .rparen) mid with
      | error _ => simp [ha, hx] at h
      | ok q =>
        obtain ⟨rparen, last⟩ := q
        obtain ⟨rfl, rfl⟩ := by simpa [ha, hx] using h
        obtain ⟨rfl, hrp⟩ := expect_eq_ok (by simp) hx
        exact .inr ⟨name, n, lparen, vs, args, rparen, rfl, hid, hlp, hrp, ha, rfl⟩
  · have hp : primary ts = .ok (e, rest) := by
      rwa [operand_of_ne fun n hname hl => hcall ⟨⟨n, hname⟩, hl⟩] at h
    obtain ⟨us, hus, t, rfl, ht⟩ := primary_reads.sound hp trivial
    exact .inl ⟨t, hus, ht⟩

/-- An operand is a call exactly if its identifier has a parenthesis behind it. -/
theorem operand_reads {nested : Reader Expr} {phrase : List Token → Expr → Prop}
    (hn : Reads nested EndsExpression phrase)
    (hh : ∀ {us e}, phrase us e → ∃ t vs, us = t :: vs ∧ StartsOperand t.kind) :
    Reads (operand nested) (· ≠ .symbol .lparen) (IsOperand phrase) where
  sound {ts rest e} h hr := by
    rcases operand_eq_ok h with ⟨t, rfl, ht⟩ | ⟨name, n, lparen, us, args, rparen, rfl, hid, hlp,
      hrp, ha, rfl⟩
    · exact ⟨[t], rfl, .primary ht⟩
    · obtain ⟨ws, rfl, hargs⟩ := (arguments_reads hn hh).sound ha hrp
      exact ⟨[name] ++ lparen :: (ws ++ [rparen]), by simp,
        .call ⟨name.lexeme, by rw [← hid]⟩ hlp hargs hrp⟩
  complete {us rest e} h hr := by
    cases h with
    | @primary t _ h =>
      rw [operand_of_ne fun _ _ => by simpa using hr]
      exact primary_reads.complete ⟨t, rfl, h⟩ trivial
    | @call ts name lparen us args rparen hid hl ha hrp =>
      obtain ⟨lexeme, rfl⟩ := hid
      have hargs : arguments nested (us ++ rparen :: rest) = .ok (args, rparen :: rest) :=
        (arguments_reads hn hh).complete ha hrp
      rw [List.append_assoc, List.singleton_append, List.cons_append, List.append_assoc,
        List.singleton_append, operand_cons_cons rfl hl, hargs]
      simp only [expect_cons hrp]

/-! ### Expressions -/

/-- An expression of the grammar that nests at most `n` deep. -/
def IsExpressionWithin (n : Nat) (ts : List Token) (e : Expr) : Prop :=
  IsExpression ts e ∧ e.nesting ≤ n

theorem isOperand_within_iff {n : Nat} {ts : List Token} {e : Expr} :
    IsOperand (IsExpressionWithin n) ts e ↔ IsOperand IsExpression ts e ∧ e.nesting ≤ n + 1 := by
  constructor
  · intro h
    cases h with
    | primary h =>
      refine ⟨.primary h, ?_⟩
      cases h <;> simp [Expr.nesting]
    | @call _ _ _ _ args _ hn hl ha hr =>
      have hargs : ∀ e ∈ args, e.nesting ≤ n := by
        cases ha with
        | none => simp
        | some ha =>
          induction ha with
          | one h => simpa using h.2
          | more h _ _ ih => simpa using ⟨h.2, ih⟩
      exact ⟨.call hn hl (ha.mono fun _ _ _ h => h.1) hr,
        Nat.succ_le_succ (Expr.nestingAll_le_iff.2 hargs)⟩
  · rintro ⟨h, hle⟩
    cases h with
    | primary h => exact .primary h
    | call hn hl ha hr =>
      have hargs := Expr.nestingAll_le_iff.1 (Nat.le_of_succ_le_succ hle)
      exact .call hn hl (ha.mono fun us e he h => ⟨h, hargs e he⟩) hr

/-- **Reading with a budget** accepts exactly the expressions that nest within it. -/
theorem expression_reads : ∀ n, Reads (expression n) EndsExpression (IsExpressionWithin n)
  | 0 =>
    { sound := fun h _ => by simp [expression, bind_apply] at h
      complete := fun {_ _ e} h _ => absurd h.2 (Nat.not_le.2 e.nesting_pos) }
  | n + 1 => by
    have hop : Reads (operand (expression n)) (· ≠ .symbol .lparen)
        (IsOperand (IsExpressionWithin n)) := operand_reads (expression_reads n) fun h => h.1.head
    rw [expression_succ]
    constructor
    · intro ts rest e h hf
      cases ho : operand (expression n) ts with
      | error _ => simp [rightFold, bind_apply, ho] at h
      | ok p =>
        obtain ⟨lhs, mid⟩ := p
        cases hk : Operator.ofKind? (nextToken mid).kind with
        | none =>
          rw [rightFold_of_none ho hk] at h
          obtain ⟨rfl, rfl⟩ : lhs = e ∧ mid = rest := by simpa using h
          obtain ⟨us, hus, hl⟩ := hop.sound ho hf.2
          obtain ⟨hl, hle⟩ := isOperand_within_iff.1 hl
          exact ⟨us, hus, .operand hl, hle⟩
        | some op =>
          rw [rightFold_of_some ho hk] at h
          obtain ⟨t, vs, rfl, -⟩ := exists_cons_of_nextToken rfl (Operator.ne_of_ofKind? hk rfl)
          cases hr : expression n vs with
          | error _ => simp [hr] at h
          | ok q =>
            obtain ⟨rhs, last⟩ := q
            obtain ⟨rfl, rfl⟩ := by simpa [hr] using h
            obtain ⟨us, rfl, hl⟩ := hop.sound ho (Operator.ne_of_ofKind? hk rfl)
            obtain ⟨hl, hle⟩ := isOperand_within_iff.1 hl
            obtain ⟨ws, rfl, hrhs⟩ := (expression_reads n).sound hr hf
            exact ⟨us ++ t :: ws, by simp, .binary hl (isOperator_iff.2 ⟨hk, rfl⟩) hrhs.1,
              Nat.max_le.2 ⟨hle, Nat.succ_le_succ hrhs.2⟩⟩
    · intro us rest e h hf
      obtain ⟨h, hle⟩ := h
      cases h with
      | operand h =>
        exact rightFold_of_none (hop.complete (isOperand_within_iff.2 ⟨h, hle⟩) hf.2) hf.1
      | @binary ts lhs t op level us rhs hl ht hr =>
        obtain ⟨hle, hle'⟩ := Nat.max_le.1 hle
        have hlhs : operand (expression n) (ts ++ t :: (us ++ rest)) =
            .ok (lhs, t :: (us ++ rest)) :=
          hop.complete (isOperand_within_iff.2 ⟨hl, hle⟩) (ht.ne nofun)
        obtain ⟨hk, rfl⟩ := isOperator_iff.1 ht
        have hrhs : expression n (us ++ rest) = .ok (rhs, rest) :=
          (expression_reads n).complete ⟨hr, Nat.le_of_succ_le_succ hle'⟩ hf
        rw [List.append_assoc, List.cons_append, rightFold_of_some hlhs hk]
        simp only [List.tail_cons, hrhs, nextToken_cons]

end Reader

end Scriptlet
