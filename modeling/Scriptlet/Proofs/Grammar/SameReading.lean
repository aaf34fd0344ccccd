import Mathlib.Data.List.Forall2
import Scriptlet.Proofs.Grammar.LineEnds
import Scriptlet.Proofs.Program.Spanless

/-!
# Layout is not read

Two readings of rows that are alike go side by side. They find tokens of the same kinds and so make
the same choices, and the numbers of line ends, by which their rows differ, never count: a break is
skipped as a whole, and where a single line end is taken, the rest of the break is skipped next. So
both read the same but for spans, or both fail with the same error but for places.

The loops of the readers are bounded by how many tokens are left, which is not the same for the two
rows. As the mark of the end is never taken, neither loop ever comes to its bound.

## Main definitions

* `ParseError.Same` — errors that are the same but for places
* `Reader.SameRead` — how two readings end that went side by side
* `Reader.Agree` — readers that read the same from rows that are alike

## Main results

* `Reader.Agree.bind` — sequences of readers that agree
* `Reader.program_agrees`
* `Program.ofTokens_layout` — layout is not read
-/

namespace Scriptlet

open Grammar

variable {α β α' β' : Type}

/-- Two things that are the same without their spans. -/
abbrev Same (spanless : α → β) (a b : α) : Prop := spanless a = spanless b

theorem Same.map {spanless : α → β} {as bs : List α} (h : List.Forall₂ (Same spanless) as bs) :
    as.map spanless = bs.map spanless := by
  induction h with
  | nil => rfl
  | cons h _ ih => rw [List.map_cons, List.map_cons, h, ih]

theorem Same.name {x y : Identifier} (h : Same Identifier.spanless x y) : x.name = y.name := by
  rw [← x.name_spanless, h, y.name_spanless]

/-- Errors that are the same but for places. -/
inductive ParseError.Same : ParseError → ParseError → Prop
  | unexpected {expected got got' hint} (h : got.kind = got'.kind) :
      Same (.unexpected expected got hint) (.unexpected expected got' hint)
  | nestingLimit {span span'} : Same (.nestingLimit span) (.nestingLimit span')
  | duplicateFunction {name name' earlier earlier'} (h : name.name = name'.name) :
      Same (.duplicateFunction name earlier) (.duplicateFunction name' earlier')
  | duplicateParameter {name name' function} (h : name.name = name'.name) :
      Same (.duplicateParameter name function) (.duplicateParameter name' function)

/-- Messages that are the same, but for the place where a function that is defined twice is defined
first. -/
def ParseError.SameMessage (e e' : ParseError) : Prop :=
  e.message = e'.message ∨
    e.code = .duplicateFunction ∧ ∃ (name : String) (earlier earlier' : Span),
      e.message = "function '" ++ name ++ "' is already declared at " ++ earlier.text ∧
        e'.message = "function '" ++ name ++ "' is already declared at " ++ earlier'.text

namespace ParseError.Same

variable {e e' : ParseError}

theorem code_eq (h : e.Same e') : e.code = e'.code := by
  cases h <;> rfl

theorem suggestion?_eq (h : e.Same e') : e.suggestion? = e'.suggestion? := by
  cases h <;> rfl

theorem sameMessage (h : e.Same e') : e.SameMessage e' := by
  unfold SameMessage message
  cases h with
  | unexpected h => exact .inl (by dsimp only; rw [h])
  | nestingLimit => exact .inl (by with_reducible rfl)
  | @duplicateFunction name _ earlier earlier' h =>
    exact .inr ⟨rfl, name.name, earlier, earlier', rfl, by rw [h]⟩
  | duplicateParameter h => exact .inl (by dsimp only; rw [h])

end ParseError.Same

namespace Reader

/-- Two readings end in the same way: with results that are related and rows that are, or with
errors that are the same but for places. -/
inductive SameRead (B : List Token → List Token → Prop) (R : α → β → Prop) :
    Except ParseError (α × List Token) → Except ParseError (β × List Token) → Prop
  | ok {a b ts us} (h : R a b) (hB : B ts us) : SameRead B R (.ok (a, ts)) (.ok (b, us))
  | error {e e'} (h : e.Same e') : SameRead B R (.error e) (.error e')

namespace SameRead

variable {B C : List Token → List Token → Prop} {R : α → β → Prop} {S : α' → β' → Prop}
  {ts us : List Token}

theorem bind {m : Reader α} {m' : Reader β} {f : α → Reader α'} {f' : β → Reader β'}
    (hm : SameRead B R (m ts) (m' us))
    (hf : ∀ a b ts us, R a b → B ts us → SameRead C S (f a ts) (f' b us)) :
    SameRead C S ((m >>= f) ts) ((m' >>= f') us) := by
  rw [bind_apply, bind_apply]
  generalize m ts = o, m' us = o' at hm
  cases hm with
  | ok h hB => exact hf _ _ _ _ h hB
  | error h => exact .error h

theorem map {m : Reader α} {m' : Reader β} {f : α → α'} {f' : β → β'}
    (hm : SameRead B R (m ts) (m' us)) (hf : ∀ a b, R a b → S (f a) (f' b)) :
    SameRead B S ((f <$> m) ts) ((f' <$> m') us) := by
  rw [map_eq_pure_bind, map_eq_pure_bind]
  exact hm.bind fun a b _ _ hab h => .ok (hf a b hab) h

theorem mono {o : Except ParseError (α × List Token)} {o' : Except ParseError (β × List Token)}
    (h : SameRead B R o o') (hB : ∀ ts us, B ts us → C ts us) : SameRead C R o o' := by
  cases h with
  | ok h hts => exact .ok h (hB _ _ hts)
  | error h => exact .error h

theorem succ {n n' : Nat} {o : Except ParseError (α × List Token)}
    {o' : Except ParseError (β × List Token)} (h : SameRead (Alike n n') R o o') :
    SameRead (Alike (n + 1) (n' + 1)) R o o' :=
  h.mono fun _ _ h => h.mono (Nat.le_succ n) (Nat.le_succ n')

end SameRead

/-- Readers that read the same from rows that are alike, and take `k` tokens at least. -/
def Agree (k : Nat) (R : α → β → Prop) (m : Reader α) (m' : Reader β) : Prop :=
  ∀ ⦃n n' : Nat⦄ ⦃ts us : List Token⦄, Alike (n + k) (n' + k) ts us →
    SameRead (Alike n n') R (m ts) (m' us)

namespace Agree

variable {R : α → β → Prop} {S : α' → β' → Prop} {k : Nat}

theorem pure {a : α} {b : β} (h : R a b) : Agree 0 R (Pure.pure a) (Pure.pure b) :=
  fun _ _ _ _ hts => .ok h hts

theorem throw {e e' : ParseError} (h : e.Same e') :
    Agree k R (MonadExcept.throw e : Reader α) (MonadExcept.throw e' : Reader β) :=
  fun _ _ _ _ _ => .error h

/-- **Sequences of readers that agree.** -/
theorem bind {m : Reader α} {m' : Reader β} {f : α → Reader α'} {f' : β → Reader β'}
    (hm : Agree k R m m') (hf : ∀ a b, R a b → Agree 0 S (f a) (f' b)) :
    Agree k S (m >>= f) (m' >>= f') :=
  fun _ _ _ _ hts => (hm hts).bind fun _ _ _ _ hab hrest => hf _ _ hab hrest

/-- What takes a token may take it from any rows that are alike, as these have tokens. -/
theorem weaken {m : Reader α} {m' : Reader β} (h : Agree 1 R m m') : Agree 0 R m m' := by
  intro n n' ts us hts
  obtain ⟨m, m', rfl, rfl⟩ : ∃ m m', n = m + 1 ∧ n' = m' + 1 := hts.exists_succ
  exact (h hts).succ

end Agree

/-! ### Single tokens -/

section

variable {n n' : Nat} {ts us : List Token}

/-- A token that is known to be no line end and no mark of the end is taken. -/
theorem advance_same (h : Alike (n + 1) (n' + 1) ts us) (hk : (nextToken ts).kind ≠ .newline)
    (hend : (nextToken ts).kind ≠ .endOfFile) :
    SameRead (Alike n n') (Same Token.kind) (advance ts) (advance us) :=
  .ok h.kind (h.tail hk hend)

/-- What is read behind a first token that is no line end is read from rows that have this token. -/
theorem read_tail {R : α → β → Prop} {o : Except ParseError (α × List Token)}
    {o' : Except ParseError (β × List Token)} (h : Alike n n' ts us)
    (hk : (nextToken ts).kind ≠ .newline) (hend : (nextToken ts).kind ≠ .endOfFile)
    (hr : ∀ m m', Alike m m' ts.tail us.tail → SameRead (Alike m m') R o o') :
    SameRead (Alike n n') R o o' := by
  obtain ⟨m, m', rfl, rfl⟩ := h.exists_succ
  exact (hr m m' (h.tail hk hend)).succ

/-- Both readings go on in the same branch. -/
theorem if_sees {B : List Token → List Token → Prop} {R : α → β → Prop} {kind : Token.Kind}
    {r s : Reader α} {r' s' : Reader β} (h : Alike n n' ts us)
    (hr : (nextToken ts).kind = kind → SameRead B R (r ts) (r' us))
    (hs : (nextToken ts).kind ≠ kind → SameRead B R (s ts) (s' us)) :
    SameRead B R ((do if ← sees kind then r else s : Reader α) ts)
      ((do if ← sees kind then r' else s' : Reader β) us) := by
  rw [bind_of_eq_ok _ (sees_apply _ _), bind_of_eq_ok _ (sees_apply _ _), ← h.kind]
  by_cases hk : (nextToken ts).kind = kind
  · rw [if_pos (decide_eq_true hk), if_pos (decide_eq_true hk)]
    exact hr hk
  · rw [if_neg (by simpa using hk), if_neg (by simpa using hk)]
    exact hs hk

end

theorem expect_agrees {kind : Token.Kind} (hk : kind ≠ .newline) (hend : kind ≠ .endOfFile) :
    Agree 1 (fun _ _ => True) (expect kind) (expect kind) :=
  fun _ _ _ _ h => if_sees h
    (fun hkind => .ok trivial (h.tail (hkind ▸ hk) (hkind ▸ hend)))
    fun _ => .error (.unexpected h.kind)

theorem identifier_agrees :
    Agree 1 (Same Identifier.spanless) identifier identifier := by
  intro n n' ts us h
  rw [identifier, bind_of_eq_ok _ (peek_apply _), bind_of_eq_ok _ (peek_apply _), ← h.kind]
  cases hk : (nextToken ts).kind with
  | identifier name =>
    exact (advance_same h (by simp [hk]) (by simp [hk])).bind fun _ _ _ _ _ h => .ok rfl h
  | _ => exact .error (.unexpected h.kind)

theorem stringLiteral_agrees :
    Agree 1 (Same Prod.fst) stringLiteral stringLiteral := by
  intro n n' ts us h
  rw [stringLiteral, bind_of_eq_ok _ (peek_apply _), bind_of_eq_ok _ (peek_apply _), ← h.kind]
  cases hk : (nextToken ts).kind with
  | string s =>
    exact (advance_same h (by simp [hk]) (by simp [hk])).bind fun _ _ _ _ _ h => .ok rfl h
  | _ => exact .error (.unexpected h.kind)

theorem primary_agrees : Agree 1 (Same Expr.spanless) primary primary := by
  intro n n' ts us h
  rw [primary, bind_of_eq_ok _ (peek_apply _), bind_of_eq_ok _ (peek_apply _), ← h.kind]
  cases hk : (nextToken ts).kind with
  | number | string | identifier =>
    exact (advance_same h (by simp [hk]) (by simp [hk])).bind fun _ _ _ _ _ h => .ok rfl h
  | keyword k =>
    cases k with
    | trueKw | falseKw =>
      exact (advance_same h (by simp [hk]) (by simp [hk])).bind fun _ _ _ _ _ h => .ok rfl h
    | _ => exact .error (.unexpected h.kind)
  | _ => exact .error (.unexpected h.kind)

/-! ### Items with commas between them -/

section

variable {R : α → β → Prop} {item : List α → Reader α} {item' : List β → Reader β}

/-- The items are read in as many rounds as there are tokens, so neither reading runs out of
rounds. -/
theorem itemsWithin_agrees
    (hi : ∀ earlier earlier', List.Forall₂ R earlier earlier' →
      Agree 0 R (item earlier) (item' earlier')) :
    ∀ {rounds rounds' : Nat} {earlier : List α} {earlier' : List β} {ts us : List Token},
      List.Forall₂ R earlier earlier' → Alike rounds rounds' ts us →
        SameRead (Alike rounds rounds') (List.Forall₂ R) (itemsWithin item rounds earlier ts)
          (itemsWithin item' rounds' earlier' us) := by
  intro rounds
  induction rounds with
  | zero =>
    intro _ _ _ _ _ _ h
    exact h.not_zero.elim
  | succ rounds ih =>
    intro rounds' earlier earlier' ts us he h
    obtain ⟨_, rounds', -, rfl⟩ := h.exists_succ
    rw [itemsWithin, itemsWithin]
    refine (hi _ _ he h).bind fun a b ts us hab h => ?_
    rw [bind_apply, bind_apply, accept_apply, accept_apply, ← h.kind]
    by_cases hk : (nextToken ts).kind = .symbol .comma
    · rw [if_pos hk, if_pos hk]
      have hrest := ih (.cons hab he) (h.tail (by simp [hk]) (by simp [hk]))
      exact hrest.succ.bind fun _ _ _ _ hs h => .ok (.cons hab hs) h
    · rw [if_neg hk, if_neg hk]
      exact .ok (.cons hab .nil) h

theorem commaSeparated_agrees
    (hi : ∀ earlier earlier', List.Forall₂ R earlier earlier' →
      Agree 0 R (item earlier) (item' earlier')) :
    Agree 0 (List.Forall₂ R) (commaSeparated item) (commaSeparated item') := by
  intro n n' ts us h
  rw [commaSeparated, commaSeparated, bind_of_eq_ok _ (tokensLeft_apply _),
    bind_of_eq_ok _ (tokensLeft_apply _)]
  exact (itemsWithin_agrees hi .nil h.lengths).mono
    fun _ _ hrest => hrest.mono h.length_le h.length_le'

end

/-! ### Expressions -/

section

variable {nested : Reader Expr}

theorem arguments_agrees (hn : Agree 0 (Same Expr.spanless) nested nested) :
    Agree 0 (List.Forall₂ (Same Expr.spanless)) (arguments nested) (arguments nested) :=
  fun _ _ _ _ h => if_sees h (fun _ => .ok .nil h)
    fun _ => commaSeparated_agrees (fun _ _ _ => hn) h

/-- A call is its name and a parenthesis, and what is read behind these two tokens. -/
theorem operand_of_call {ts : List Token} {x : String} (hx : (nextToken ts).kind = .identifier x)
    (hl : (nextToken ts.tail).kind = .symbol .lparen) :
    operand nested ts = (do
      let args ← arguments nested
      let close ← expect (.symbol .rparen)
      return .call ⟨x, (nextToken ts).span⟩ args
        ((nextToken ts).span.merge close.span) : Reader Expr) ts.tail.tail := by
  obtain ⟨name, us, rfl, hname⟩ := exists_cons_of_nextToken hx (by simp)
  obtain ⟨lparen, vs, rfl, hlp⟩ : ∃ t vs, us = t :: vs ∧ t.kind = .symbol .lparen :=
    exists_cons_of_nextToken hl (by simp)
  rw [operand_cons_cons hname hlp, List.tail_cons, List.tail_cons, bind_apply]
  cases arguments nested vs with
  | error e => rfl
  | ok p =>
    simp only [bind_apply]
    cases expect (.symbol .rparen) p.2 <;> rfl

theorem operand_agrees (hn : Agree 0 (Same Expr.spanless) nested nested) :
    Agree 0 (Same Expr.spanless) (operand nested) (operand nested) := by
  intro n n' ts us h
  by_cases hcall : (∃ x, (nextToken ts).kind = .identifier x) ∧
      (nextToken ts.tail).kind = .symbol .lparen
  · obtain ⟨⟨x, hx⟩, hl⟩ := hcall
    refine read_tail h (by simp [hx]) (by simp [hx]) fun _ _ htail => ?_
    refine read_tail htail (by simp [hl]) (by simp [hl]) fun _ _ hargs => ?_
    rw [operand_of_call hx hl, operand_of_call (h.kind ▸ hx) (htail.kind ▸ hl)]
    refine (arguments_agrees hn).bind (fun args args' ha => ?_) hargs
    refine (expect_agrees (by simp) (by simp)).weaken.bind fun _ _ _ => .pure ?_
    rw [Same, Expr.spanless, Expr.spanless, Expr.spanlessAll_eq_map, Expr.spanlessAll_eq_map,
      Same.map ha]
    rfl
  · have hne : ∀ x, (nextToken ts).kind = .identifier x →
        (nextToken ts.tail).kind ≠ .symbol .lparen := fun x hx hl => hcall ⟨⟨x, hx⟩, hl⟩
    rw [operand_of_ne hne, operand_of_ne (h.second_ne hne)]
    exact primary_agrees.weaken h

theorem afterOperand_agrees (hn : Agree 0 (Same Expr.spanless) nested nested) {lhs lhs' : Expr}
    (hlhs : Same Expr.spanless lhs lhs') :
    Agree 0 (Same Expr.spanless) (afterOperand nested lhs) (afterOperand nested lhs') := by
  intro n n' ts us h
  rw [afterOperand, afterOperand, bind_of_eq_ok _ (peek_apply _), bind_of_eq_ok _ (peek_apply _),
    ← h.kind]
  cases hop : Operator.ofKind? (nextToken ts).kind with
  | none => exact .ok hlhs h
  | some op =>
    have hne : ∀ k, Operator.ofKind? k = none → (nextToken ts).kind ≠ k :=
      fun _ hk => Operator.ne_of_ofKind? hop hk
    refine read_tail h (hne _ rfl) (hne _ rfl) fun _ _ htail => ?_
    dsimp only
    rw [bind_of_eq_ok _ (advance_apply _), bind_of_eq_ok _ (advance_apply _)]
    refine (hn htail).bind fun rhs rhs' _ _ hrhs h => .ok ?_ h
    rw [Same, Expr.spanless, Expr.spanless, hlhs, hrhs]

end

/-- Expressions, by their nesting. -/
theorem expression_agrees :
    ∀ n, Agree 0 (Same Expr.spanless) (expression n) (expression n)
  | 0 => fun _ _ _ _ _ => .error .nestingLimit
  | n + 1 => by
    rw [expression_succ, rightFold_eq]
    exact (operand_agrees (expression_agrees n)).bind fun _ _ hlhs =>
      afterOperand_agrees (expression_agrees n) hlhs

/-! ### Statements -/

section

variable {expression : Reader Expr}

theorem statement_of_colonEq {ts : List Token} {x : String}
    (hx : (nextToken ts).kind = .identifier x)
    (hc : (nextToken ts.tail).kind = .symbol .colonEq) :
    statement expression ts =
      ((fun value => .declaration ⟨x, (nextToken ts).span⟩ value
        ((nextToken ts).span.merge value.span)) <$> expression) ts.tail.tail := by
  obtain ⟨name, us, rfl, hname⟩ := exists_cons_of_nextToken hx (by simp)
  obtain ⟨t, vs, rfl, ht⟩ : ∃ t vs, us = t :: vs ∧ t.kind = .symbol .colonEq :=
    exists_cons_of_nextToken hc (by simp)
  exact statement_of_declaration hname ht

theorem statement_agrees (he : Agree 0 (Same Expr.spanless) expression expression) :
    Agree 0 (Same Stmt.spanless) (statement expression) (statement expression) := by
  intro n n' ts us h
  by_cases hr : (nextToken ts).kind = .keyword .returnKw
  · refine read_tail h (by simp [hr]) (by simp [hr]) fun _ _ htail => ?_
    rw [statement_of_return hr, statement_of_return (h.kind ▸ hr)]
    refine (he htail).map fun v v' hv => ?_
    rw [Same, Stmt.spanless, Stmt.spanless, hv]
  by_cases hd : (∃ x, (nextToken ts).kind = .identifier x) ∧
      (nextToken ts.tail).kind = .symbol .colonEq
  · obtain ⟨⟨x, hx⟩, hc⟩ := hd
    refine read_tail h (by simp [hx]) (by simp [hx]) fun _ _ htail => ?_
    refine read_tail htail (by simp [hc]) (by simp [hc]) fun _ _ hvalue => ?_
    rw [statement_of_colonEq hx hc, statement_of_colonEq (h.kind ▸ hx) (htail.kind ▸ hc)]
    refine (he hvalue).map fun v v' hv => ?_
    rw [Same, Stmt.spanless, Stmt.spanless, hv]
    rfl
  · have hne : ∀ x, (nextToken ts).kind = .identifier x →
        (nextToken ts.tail).kind ≠ .symbol .colonEq := fun x hx hc => hd ⟨⟨x, hx⟩, hc⟩
    rw [statement_of_expression hr hne,
      statement_of_expression (h.kind ▸ hr) (h.second_ne hne)]
    refine (he h).map fun v v' hv => ?_
    rw [Same, Stmt.spanless, Stmt.spanless, hv]

/-- Behind the end of a statement there may be further line ends of the same break. -/
theorem statementEnd_agrees {n n' : Nat} {ts us : List Token}
    (h : Alike (n + 1) (n' + 1) ts us) :
    SameRead (fun ts us => AlikeBehind n n' ts us ∨
        (nextToken ts).kind = .symbol .rbrace ∧ Alike (n + 1) (n' + 1) ts us) (fun _ _ => True)
      (statementEnd ts) (statementEnd us) := by
  by_cases hb : (nextToken ts).kind = .symbol .rbrace
  · rw [statementEnd_eq_ok_iff.2 (.inl ⟨hb, rfl⟩),
      statementEnd_eq_ok_iff.2 (.inl ⟨h.kind ▸ hb, rfl⟩)]
    exact .ok trivial (.inr ⟨hb, h⟩)
  by_cases hn : (nextToken ts).kind = .newline
  · have htail := h.tail_of_newline hn
    have hn' : (nextToken us).kind = .newline := h.kind ▸ hn
    obtain ⟨t, ts, rfl, ht⟩ := exists_cons_of_nextToken hn (by simp)
    obtain ⟨u, us, rfl, hu⟩ := exists_cons_of_nextToken hn' (by simp)
    rw [statementEnd_eq_ok_iff.2 (.inr ⟨t, rfl, ht⟩), statementEnd_eq_ok_iff.2 (.inr ⟨u, rfl, hu⟩)]
    exact .ok trivial (.inl htail)
  · rw [statementEnd_of_ne hb hn, statementEnd_of_ne (h.kind ▸ hb) (h.kind ▸ hn)]
    exact .error (.unexpected h.kind)

/-- The statements are read in as many rounds as there are tokens, so neither reading runs out of
rounds. -/
theorem statements_agree (he : Agree 0 (Same Expr.spanless) expression expression) :
    ∀ {rounds rounds' : Nat} {ts us : List Token}, AlikeBehind rounds rounds' ts us →
      SameRead (Alike rounds rounds') (List.Forall₂ (Same Stmt.spanless))
        (statements expression rounds ts) (statements expression rounds' us) := by
  intro rounds
  induction rounds with
  | zero =>
    intro _ _ _ h
    exact h.alike.not_zero.elim
  | succ rounds ih =>
    intro rounds' ts us hbehind
    have h := hbehind.alike
    obtain ⟨_, rounds', -, rfl⟩ := h.exists_succ
    rw [statements, statements, bind_of_eq_ok _ (skipNewlines_apply _),
      bind_of_eq_ok _ (skipNewlines_apply _)]
    refine if_sees h (fun _ => .ok .nil h) fun _ => ?_
    refine if_sees h (fun _ => .error (.unexpected h.kind)) fun _ => ?_
    refine (statement_agrees he h).bind fun s s' _ _ hs h => ?_
    refine (statementEnd_agrees h).bind fun _ _ ts us _ h => ?_
    rcases h with h | ⟨hb, h⟩
    · exact (ih h).succ.map fun _ _ hss => .cons hs hss
    · -- the closing brace stays, so the rounds that are left may be too few, but nothing is read
      rw [bind_of_eq_ok _ (statements_of_rbrace hb),
        bind_of_eq_ok _ (statements_of_rbrace (h.kind ▸ hb))]
      exact .ok (.cons hs .nil) h

/-! ### Functions -/

theorem parameter_agrees (function : String) {earlier earlier' : List Identifier}
    (he : List.Forall₂ (Same Identifier.spanless) earlier earlier') :
    Agree 0 (Same Identifier.spanless) (parameter function earlier)
      (parameter function earlier') := by
  refine identifier_agrees.weaken.bind fun p p' hp => ?_
  have hnames : earlier.map Identifier.name = earlier'.map Identifier.name :=
    Same.map (he.imp fun _ _ h => h.name)
  have hany : earlier.any (·.name = p.name) = earlier'.any (·.name = p'.name) := calc
    _ = (earlier.map Identifier.name).any (· = p.name) := List.any_map.symm
    _ = (earlier'.map Identifier.name).any (· = p'.name) := by rw [hnames, hp.name]
    _ = _ := List.any_map
  rw [hany]
  split
  · exact .throw (.duplicateParameter hp.name)
  · exact .pure hp

theorem parameters_agree (function : String) :
    Agree 0 (List.Forall₂ (Same Identifier.spanless)) (parameters function)
      (parameters function) :=
  fun _ _ _ _ h => if_sees h (fun _ => .ok .nil h)
    fun _ => commaSeparated_agrees (fun _ _ => parameter_agrees function) h

theorem functionStart_agrees : Agree 1 (fun _ _ => True) functionStart functionStart :=
  fun _ _ _ _ h => if_sees h (fun _ => .error (.unexpected h.kind))
    fun _ => expect_agrees (by simp) (by simp) h

theorem bodyStart_agrees {n n' : Nat} {ts us : List Token} (h : Alike (n + 1) (n' + 1) ts us) :
    SameRead (AlikeBehind n n') (fun _ _ => True) (bodyStart ts) (bodyStart us) := by
  rw [bodyStart, bind_apply, bind_apply, accept_apply, accept_apply, ← h.kind]
  by_cases hk : (nextToken ts).kind = .newline
  · rw [if_pos hk, if_pos hk]
    exact .ok trivial (h.tail_of_newline hk)
  · rw [if_neg hk, if_neg hk]
    exact .error (.unexpected h.kind)

theorem scriptFunction_agrees (he : Agree 0 (Same Expr.spanless) expression expression) :
    Agree 1 (Same ScriptFunction.spanless) (scriptFunction expression)
      (scriptFunction expression) := by
  refine functionStart_agrees.bind fun start start' _ => ?_
  refine identifier_agrees.weaken.bind fun name name' hname => ?_
  refine (expect_agrees (by simp) (by simp)).weaken.bind fun _ _ _ => ?_
  rw [hname.name]
  refine (parameters_agree name'.name).bind fun params params' hparams => ?_
  refine (expect_agrees (by simp) (by simp)).weaken.bind fun _ _ _ => ?_
  refine (expect_agrees (by simp) (by simp)).weaken.bind fun _ _ _ => ?_
  -- behind its first line end, the body may start within a break, where rows need not be alike
  intro n n' ts us h
  obtain ⟨m, m', rfl, rfl⟩ := h.exists_succ
  refine (bodyStart_agrees h).bind fun _ _ ts us _ h => ?_
  rw [bind_of_eq_ok _ (tokensLeft_apply _), bind_of_eq_ok _ (tokensLeft_apply _)]
  refine (statements_agree he h.lengths).bind fun body body' _ _ hbody hrest => ?_
  have hrest := hrest.mono (Nat.le_succ_of_le h.length_le) (Nat.le_succ_of_le h.length_le')
  refine (expect_agrees (by simp) (by simp)).weaken.bind (fun _ _ _ => .pure ?_) hrest
  rw [Same, ScriptFunction.spanless, ScriptFunction.spanless, hname, Same.map hparams,
    Same.map hbody]

end

/-! ### Imports and definitions -/

theorem importLine_agrees :
    Agree 1 (List.Forall₂ (Same Import.spanless)) importLine importLine := by
  refine (expect_agrees (by simp) (by simp)).bind fun start start' _ => ?_
  refine (expect_agrees (by simp) (by simp)).weaken.bind fun _ _ _ => ?_
  refine (commaSeparated_agrees fun _ _ _ => identifier_agrees.weaken).bind fun names names' h => ?_
  refine (expect_agrees (by simp) (by simp)).weaken.bind fun _ _ _ => ?_
  refine (expect_agrees (by simp) (by simp)).weaken.bind fun _ _ _ => ?_
  refine stringLiteral_agrees.weaken.bind fun s s' (hs : s.1 = s'.1) => .pure ?_
  rw [List.forall₂_map_left_iff, List.forall₂_map_right_iff]
  exact h.imp fun name name' hname => by
    rw [Same, Import.spanless, Import.spanless, hname, hs]

variable {p p' : Program} {d d' : Definition}

/-- Whether a name is defined already does not depend on where. -/
theorem define_agrees (hp : Same Program.spanless p p') (hd : Same Definition.spanless d d') :
    Agree 0 (Same Program.spanless) (define p d) (define p' d') := by
  have hname : d.name.name = d'.name.name := by
    rw [← d.name.name_spanless, ← d.name_spanless, hd, d'.name_spanless, d'.name.name_spanless]
  have hget : (p.get? d.name.name).map Definition.spanless =
      (p'.get? d.name.name).map Definition.spanless := by
    rw [← Program.get?_spanless, ← Program.get?_spanless, hp]
  rw [define, define, ← hname]
  cases h : p.get? d.name.name with
  | none =>
    rw [h, Option.map_none, eq_comm, Option.map_eq_none_iff] at hget
    rw [hget]
    refine .pure ?_
    rw [Same, Program.spanless_add, Program.spanless_add, hp, hd]
  | some earlier =>
    rw [h, Option.map_some, eq_comm, Option.map_eq_some_iff] at hget
    obtain ⟨earlier', hearlier, -⟩ := hget
    rw [hearlier]
    exact .throw (.duplicateFunction hname)

theorem defineAll_agrees {is is' : List Import}
    (h : List.Forall₂ (Same Import.spanless) is is') :
    ∀ {p p' : Program}, Same Program.spanless p p' → Agree 0 (Same Program.spanless)
      (is.foldlM (fun p i => define p (.native i)) p)
      (is'.foldlM (fun p i => define p (.native i)) p') := by
  induction h with
  | nil => exact fun hp => .pure hp
  | @cons i i' _ _ hi _ ih =>
    intro p p' hp
    have hd : Same Definition.spanless (.native i) (.native i') := congrArg Definition.native hi
    rw [List.foldlM_cons, List.foldlM_cons]
    exact (define_agrees hp hd).bind fun _ _ hp => ih hp

theorem skipNewlines_agree : Agree 0 (fun _ _ => True) skipNewlines skipNewlines :=
  fun _ _ _ _ h => .ok trivial h.behind.alike

/-! ### Programs -/

theorem imports_agree :
    ∀ {rounds rounds' : Nat} {p p' : Program} {ts us : List Token}, Same Program.spanless p p' →
      Alike rounds rounds' ts us → SameRead (Alike rounds rounds') (Same Program.spanless)
        (imports rounds p ts) (imports rounds' p' us) := by
  intro rounds
  induction rounds with
  | zero =>
    intro _ _ _ _ _ _ h
    exact h.not_zero.elim
  | succ rounds ih =>
    intro rounds' p p' ts us hp h
    obtain ⟨_, rounds', -, rfl⟩ := h.exists_succ
    refine if_sees h (fun _ => ?_) fun _ => .ok hp h
    refine .succ ?_
    refine (importLine_agrees h).bind fun line line' _ _ hline h => ?_
    refine (defineAll_agrees hline hp h).bind fun p p' _ _ hp h => ?_
    exact (skipNewlines_agree h).bind fun _ _ _ _ _ h => ih hp h

section

variable {expression : Reader Expr}

theorem functions_agree (he : Agree 0 (Same Expr.spanless) expression expression) :
    ∀ {rounds rounds' : Nat} {p p' : Program} {ts us : List Token}, Same Program.spanless p p' →
      Alike rounds rounds' ts us → SameRead (Alike rounds rounds') (Same Program.spanless)
        (functions expression rounds p ts) (functions expression rounds' p' us) := by
  intro rounds
  induction rounds with
  | zero =>
    intro _ _ _ _ _ _ h
    exact h.not_zero.elim
  | succ rounds ih =>
    intro rounds' p p' ts us hp h
    obtain ⟨_, rounds', -, rfl⟩ := h.exists_succ
    refine if_sees h (fun _ => .ok hp h) fun _ => ?_
    refine .succ ?_
    refine (scriptFunction_agrees he h).bind fun f f' _ _ hf h => ?_
    have hd : Same Definition.spanless (.script f) (.script f') := congrArg Definition.script hf
    refine (define_agrees hp hd h).bind fun p p' _ _ hp h => ?_
    exact (skipNewlines_agree h).bind fun _ _ _ _ _ h => ih hp h

/-- **Programs are read the same** from rows that are alike. -/
theorem program_agrees (he : Agree 0 (Same Expr.spanless) expression expression) :
    Agree 0 (Same Program.spanless) (program expression) (program expression) := by
  refine skipNewlines_agree.bind fun _ _ _ n n' ts us h => ?_
  rw [bind_of_eq_ok _ (tokensLeft_apply _), bind_of_eq_ok _ (tokensLeft_apply _)]
  refine (imports_agree rfl h.lengths).bind fun p p' ts us hp hrest => ?_
  have hrest := hrest.mono h.length_le h.length_le'
  rw [bind_of_eq_ok _ (tokensLeft_apply _), bind_of_eq_ok _ (tokensLeft_apply _)]
  exact (functions_agree he hp hrest.lengths).mono
    fun _ _ hlast => hlast.mono hrest.length_le hrest.length_le'

end

end Reader

namespace Program

/-- **Layout is not read.** Rows of the same kinds, up to how many line ends stand behind one
another, are both programs, which are the same without spans, or they both are none, for the same
reason. Lexemes, spans and numbers of line ends are free. -/
theorem ofTokens_layout {ts us : List Token} (h : collapse (kinds ts) = collapse (kinds us)) :
    (∃ p q, ofTokens ts = .ok p ∧ ofTokens us = .ok q ∧ p.spanless = q.spanless) ∨
      ∃ e e', ofTokens ts = .error e ∧ ofTokens us = .error e' ∧ e.code = e'.code ∧
        e.suggestion? = e'.suggestion? ∧ e.SameMessage e' := by
  have hread := Reader.program_agrees (Reader.expression_agrees maxNesting) (alike_withEnd h)
  rw [ofTokens, ofTokens, StateT.run', StateT.run']
  generalize Reader.program (.expression maxNesting) (withEnd ts) = o,
    Reader.program (.expression maxNesting) (withEnd us) = o' at hread
  cases hread with
  | @ok p q _ _ hpq _ => exact .inl ⟨p, q, rfl, rfl, hpq⟩
  | @error e e' he => exact .inr ⟨e, e', rfl, rfl, he.code_eq, he.suggestion?_eq, he.sameMessage⟩

/-- A body of nothing but one or two line ends, and then the start of another one. -/
theorem ofTokens_layout_small :
    let head := [.keyword .funcKw, .identifier "f", .symbol .lparen, .symbol .rparen,
      .symbol .lbrace, Token.Kind.newline]
    let row := (head ++ .symbol .rbrace :: .newline :: head).map someToken
    let row' := (head ++ .newline :: .symbol .rbrace :: .newline :: .newline :: head).map
      fun k => ⟨k, "?", .point ⟨7, 1⟩⟩
    collapse (kinds row) = collapse (kinds row') ∧
      ((∃ p q, ofTokens row = .ok p ∧ ofTokens row' = .ok q ∧ p.spanless = q.spanless) ∨
        ∃ e e', ofTokens row = .error e ∧ ofTokens row' = .error e' ∧ e.code = e'.code ∧
          e.suggestion? = e'.suggestion? ∧ e.SameMessage e') :=
  ⟨rfl, ofTokens_layout rfl⟩

end Program

end Scriptlet
