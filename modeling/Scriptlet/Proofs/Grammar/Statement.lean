import Scriptlet.Proofs.Grammar.Expression

/-!
# Reading statements and functions

Statements, bodies and functions are read exactly as the grammar has them, with the two checks that
the grammar leaves out: expressions nest within the budget, and the parameters of one function have
different names.

A body is read in rounds, each of which takes a statement. Soundness needs no bound on the rounds,
since a body may stop anywhere before the closing brace is asked for; completeness needs one round
for each token.

## Main results

* `Reader.statement_reads`
* `Reader.statements_sound`, `statements_complete` — the body of a function
* `Reader.scriptFunction_reads`
-/

namespace Scriptlet

open Grammar

namespace Grammar

theorem IsOperand.append_cons {expression : List Token → Expr → Prop} {ts us vs : List Token}
    {t u op : Token} {e : Expr} (h : IsOperand expression ts e)
    (hts : ts ++ op :: us = t :: u :: vs) : u = op ∨ u.kind = .symbol .lparen := by
  obtain ⟨t', ws, rfl, -⟩ := h.head
  cases ws with
  | nil =>
    obtain ⟨-, rfl, -⟩ : t' = t ∧ op = u ∧ us = vs := by simpa using hts
    exact .inl rfl
  | cons u' ws =>
    obtain ⟨-, rfl, -⟩ : t' = t ∧ u' = u ∧ ws ++ op :: us = vs := by simpa using hts
    exact .inr (h.second rfl)

/-- The second token of an expression is never `:=`, so the first two tokens tell a declaration from
an expression. -/
theorem IsExpression.second {t u : Token} {us : List Token} {e : Expr}
    (h : IsExpression (t :: u :: us) e) : u.kind ≠ .symbol .colonEq := by
  generalize hts : t :: u :: us = ts at h
  cases h with
  | operand h =>
    rw [h.second hts.symm]
    simp
  | binary hl ht _ =>
    rcases hl.append_cons hts.symm with rfl | hu
    · exact ht.ne nofun
    · rw [hu]
      simp

end Grammar

namespace Reader

variable {expression : Reader Expr} {n : Nat}

/-! ### Statements -/

/-- What may follow a statement. -/
def EndsStatement (k : Token.Kind) : Prop := k = .newline ∨ k = .symbol .rbrace

theorem EndsStatement.endsExpression {k : Token.Kind} (h : EndsStatement k) : EndsExpression k := by
  rcases h with rfl | rfl <;> exact ⟨rfl, by simp⟩

/-- A statement whose expression nests at most `n` deep. -/
def IsStatementWithin (n : Nat) (ts : List Token) (s : Stmt) : Prop :=
  IsStatement ts s ∧ s.value.nesting ≤ n

theorem statement_of_return {ts : List Token} (h : (nextToken ts).kind = .keyword .returnKw) :
    statement expression ts =
      ((fun value => .result value ((nextToken ts).span.merge value.span)) <$> expression)
        ts.tail := by
  simp only [statement, bind_apply, peek_apply, h, advance_apply, map_apply]
  cases expression ts.tail <;> rfl

theorem statement_of_declaration {name t : Token} {x : String} {ts : List Token}
    (hn : name.kind = .identifier x) (ht : t.kind = .symbol .colonEq) :
    statement expression (name :: t :: ts) =
      ((fun value => .declaration ⟨x, name.span⟩ value (name.span.merge value.span)) <$> expression)
        ts := by
  have hid : IsIdentifier [name] ⟨x, name.span⟩ := ⟨name.lexeme, by rw [← hn]⟩
  have hi : identifier (name :: t :: ts) = .ok (⟨x, name.span⟩, t :: ts) :=
    identifier_reads.complete hid trivial
  simp only [statement, bind_apply, peek_apply, nextToken_cons, hn, seesAfter_apply, List.tail_cons,
    ht, decide_true, if_true, hi, advance_apply, map_apply]
  cases expression ts <;> rfl

theorem statement_of_expression {ts : List Token}
    (hr : (nextToken ts).kind ≠ .keyword .returnKw)
    (hd : ∀ x, (nextToken ts).kind = .identifier x →
      (nextToken ts.tail).kind ≠ .symbol .colonEq) :
    statement expression ts = ((fun value => .expression value value.span) <$> expression) ts := by
  rw [statement, bind_of_eq_ok _ (peek_apply ts), map_eq_pure_bind]
  cases hk : (nextToken ts).kind with
  | identifier x =>
    have hne := hd x hk
    simp only [bind_apply, seesAfter_apply, hne, decide_false, Bool.false_eq_true, if_false]
  | keyword k =>
    cases k with
    | returnKw => exact absurd hk hr
    | _ => rfl
  | _ => rfl

/-- A statement is told by its first token, or its first two, and then read as an expression. -/
theorem statement_sound (he : Reads expression EndsExpression (IsExpressionWithin n))
    {ts rest : List Token} {s : Stmt} (h : statement expression ts = .ok (s, rest))
    (hf : EndsStatement (nextToken rest).kind) :
    ∃ us, ts = us ++ rest ∧ IsStatementWithin n us s := by
  by_cases hr : (nextToken ts).kind = .keyword .returnKw
  · obtain ⟨t, us, rfl, ht⟩ := exists_cons_of_nextToken hr (by simp)
    rw [statement_of_return hr, map_eq_ok_iff] at h
    obtain ⟨value, hv, rfl⟩ := h
    obtain ⟨vs, hvs, hvalue, hle⟩ := he.sound hv hf.endsExpression
    obtain rfl : us = vs ++ rest := hvs
    exact ⟨t :: vs, rfl, .result ht hvalue, hle⟩
  · by_cases hd : (∃ x, (nextToken ts).kind = .identifier x) ∧
        (nextToken ts.tail).kind = .symbol .colonEq
    · obtain ⟨⟨x, hx⟩, hc⟩ := hd
      obtain ⟨name, us, rfl, hn⟩ := exists_cons_of_nextToken hx (by simp)
      obtain ⟨t, vs, rfl, ht⟩ : ∃ t vs, us = t :: vs ∧ t.kind = .symbol .colonEq :=
        exists_cons_of_nextToken hc (by simp)
      rw [statement_of_declaration hn ht, map_eq_ok_iff] at h
      obtain ⟨value, hv, rfl⟩ := h
      obtain ⟨ws, rfl, hvalue, hle⟩ := he.sound hv hf.endsExpression
      exact ⟨[name] ++ t :: ws, rfl, .declaration ⟨name.lexeme, by rw [← hn]⟩ ht hvalue, hle⟩
    · rw [statement_of_expression hr fun x hx hc => hd ⟨⟨x, hx⟩, hc⟩, map_eq_ok_iff] at h
      obtain ⟨value, hv, rfl⟩ := h
      obtain ⟨us, rfl, hvalue, hle⟩ := he.sound hv hf.endsExpression
      exact ⟨us, rfl, .expression hvalue, hle⟩

theorem statement_complete (he : Reads expression EndsExpression (IsExpressionWithin n))
    {us rest : List Token} {s : Stmt} (h : IsStatementWithin n us s)
    (hf : EndsStatement (nextToken rest).kind) :
    statement expression (us ++ rest) = .ok (s, rest) := by
  obtain ⟨h, hle⟩ := h
  cases h with
  | @result t ts value ht hv =>
    have hr : (nextToken (t :: (ts ++ rest))).kind = .keyword .returnKw := ht
    rw [List.cons_append, statement_of_return hr, map_eq_ok_iff]
    exact ⟨value, he.complete ⟨hv, hle⟩ hf.endsExpression, rfl⟩
  | @declaration _ _ _ _ value hn ht hv =>
    obtain ⟨lexeme, rfl⟩ := hn
    rw [List.append_assoc, List.singleton_append, List.cons_append,
      statement_of_declaration rfl ht, map_eq_ok_iff]
    exact ⟨value, he.complete ⟨hv, hle⟩ hf.endsExpression, rfl⟩
  | @expression _ value hv =>
    have hread := he.complete ⟨hv, hle⟩ hf.endsExpression
    obtain ⟨t, vs, rfl, ht⟩ := hv.head
    have hr : (nextToken (t :: vs ++ rest)).kind ≠ .keyword .returnKw := by
      intro hr
      rw [List.cons_append, nextToken_cons] at hr
      simp [hr, StartsOperand] at ht
    have hd : ∀ x, (nextToken (t :: vs ++ rest)).kind = .identifier x →
        (nextToken (t :: vs ++ rest).tail).kind ≠ .symbol .colonEq := by
      intro x _
      rw [List.cons_append, List.tail_cons]
      cases vs with
      | nil =>
        rcases hf with hf | hf <;> rw [List.nil_append, hf] <;> simp
      | cons u vs => exact hv.second
    rw [statement_of_expression hr hd, map_eq_ok_iff]
    exact ⟨value, hread, rfl⟩

/-- A statement of the grammar is read up to its end. -/
theorem statement_reads (he : Reads expression EndsExpression (IsExpressionWithin n)) :
    Reads (statement expression) EndsStatement (IsStatementWithin n) :=
  ⟨statement_sound he, statement_complete he⟩

/-- A statement ends before a closing brace, which stays, or with a line end, which is taken. -/
theorem statementEnd_eq_ok_iff {ts rest : List Token} :
    statementEnd ts = .ok ((), rest) ↔
      ((nextToken ts).kind = .symbol .rbrace ∧ ts = rest) ∨
        ∃ t, ts = t :: rest ∧ t.kind = .newline := by
  rw [statementEnd, bind_of_eq_ok _ (sees_apply _ _)]
  by_cases hb : (nextToken ts).kind = .symbol .rbrace
  · simp only [hb, decide_true, if_true]
    constructor
    · rintro ⟨⟩
      exact .inl ⟨trivial, rfl⟩
    · rintro (⟨-, rfl⟩ | ⟨t, rfl, ht⟩)
      · rfl
      · rw [nextToken_cons, ht] at hb
        cases hb
  · simp only [hb, decide_false, Bool.false_eq_true, if_false, false_and, false_or]
    rw [bind_eq_ok_iff]
    constructor
    · rintro ⟨t, mid, hx, ⟨⟩⟩
      obtain ⟨rfl, ht⟩ := expect_eq_ok (by simp) hx
      exact ⟨t, rfl, ht⟩
    · rintro ⟨t, rfl, ht⟩
      exact ⟨t, rest, expect_cons ht rest, rfl⟩

/-! ### Bodies -/

/-- Nothing is read at the closing brace. -/
theorem statements_of_rbrace {rounds : Nat} {ts : List Token}
    (h : (nextToken ts).kind = .symbol .rbrace) :
    statements expression rounds ts = .ok ([], ts) := by
  cases rounds with
  | zero => rfl
  | succ rounds =>
    have hdrop : (ts.dropWhile fun t => t.kind = .newline) = ts :=
      dropWhile_newlines (List.forall_mem_nil _) (by simp [h])
    simp [statements, bind_apply, hdrop, h]

theorem statements_sound (he : Reads expression EndsExpression (IsExpressionWithin n)) :
    ∀ {rounds : Nat} {ts rest : List Token} {ss : List Stmt},
      statements expression rounds ts = .ok (ss, rest) →
        ∃ us, ts = us ++ rest ∧ IsBody us ss ∧ ∀ s ∈ ss, s.value.nesting ≤ n := by
  intro rounds
  induction rounds with
  | zero =>
    intro ts rest ss h
    obtain ⟨rfl, rfl⟩ : [] = ss ∧ ts = rest := by simpa [statements] using h
    exact ⟨[], rfl, .blank (List.forall_mem_nil _), List.forall_mem_nil _⟩
  | succ rounds ih =>
    intro ts rest ss h
    obtain ⟨nl, hnl, hn⟩ := exists_newlines ts
    rw [statements, bind_of_eq_ok _ (skipNewlines_apply ts)] at h
    generalize (ts.dropWhile fun t => t.kind = .newline) = us at hnl h
    subst hnl
    by_cases hb : (nextToken us).kind = .symbol .rbrace
    · obtain ⟨rfl, rfl⟩ : [] = ss ∧ us = rest := by simpa [bind_apply, hb] using h
      exact ⟨nl, rfl, .blank hn, List.forall_mem_nil _⟩
    by_cases hend : (nextToken us).kind = .endOfFile
    · simp [bind_apply, hend] at h
    · simp only [bind_of_eq_ok _ (sees_apply _ _), hb, hend, decide_false, Bool.false_eq_true,
        if_false] at h
      obtain ⟨s, mid, hs, h⟩ := bind_eq_ok_iff.1 h
      obtain ⟨_, mid', hstop, h⟩ := bind_eq_ok_iff.1 h
      obtain ⟨ss', last, hss, h⟩ := bind_eq_ok_iff.1 h
      obtain ⟨rfl, rfl⟩ : s :: ss' = ss ∧ last = rest := by simpa using h
      rcases statementEnd_eq_ok_iff.1 hstop with ⟨hb, rfl⟩ | ⟨t, rfl, ht⟩
      · -- the closing brace stays, so there is no further statement
        rw [statements_of_rbrace hb] at hss
        obtain ⟨rfl, rfl⟩ : [] = ss' ∧ mid = last := by simpa using hss
        obtain ⟨us, rfl, hus, hle⟩ := (statement_reads he).sound hs (.inr hb)
        exact ⟨nl ++ us, by simp, .last hn hus, by simpa using hle⟩
      · obtain ⟨vs, rfl, hvs, hle'⟩ := ih hss
        obtain ⟨us, rfl, hus, hle⟩ := (statement_reads he).sound hs (.inl ht)
        exact ⟨nl ++ (us ++ t :: vs), by simp, .line hn hus ht hvs,
          List.forall_mem_cons.2 ⟨hle, hle'⟩⟩

/-- One round takes a statement, with the line ends before it. -/
theorem statements_succ (he : Reads expression EndsExpression (IsExpressionWithin n))
    {rounds : Nat} {nl us rest : List Token} {s : Stmt} (hn : Newlines nl)
    (hs : IsStatementWithin n us s) (hf : EndsStatement (nextToken rest).kind) :
    statements expression (rounds + 1) (nl ++ (us ++ rest)) =
      (do
        statementEnd
        return s :: (← statements expression rounds) : Reader (List Stmt)) rest := by
  have hread := (statement_reads he).complete hs hf
  obtain ⟨t, vs, rfl, ht⟩ := hs.1.head
  have hk : t.kind ≠ .newline ∧ t.kind ≠ .symbol .rbrace ∧ t.kind ≠ .endOfFile := by
    refine ⟨?_, ?_, ?_⟩ <;> intro hk <;> simp [hk, StartsOperand] at ht
  have hdrop := dropWhile_newlines hn (show (nextToken (t :: vs ++ rest)).kind ≠ .newline from hk.1)
  rw [statements, bind_of_eq_ok _ (skipNewlines_apply _), hdrop]
  simp only [bind_of_eq_ok _ (sees_apply _ _), List.cons_append, nextToken_cons, hk, decide_false,
    Bool.false_eq_true, if_false]
  rw [List.cons_append] at hread
  rw [bind_of_eq_ok _ hread]

theorem statements_complete (he : Reads expression EndsExpression (IsExpressionWithin n))
    {us rest : List Token} {ss : List Stmt} (h : IsBody us ss)
    (hr : (nextToken rest).kind = .symbol .rbrace) :
    ∀ {rounds : Nat}, us.length < rounds → (∀ s ∈ ss, s.value.nesting ≤ n) →
      statements expression rounds (us ++ rest) = .ok (ss, rest) := by
  induction h with
  | @blank nl hn =>
    intro rounds hlen _
    obtain ⟨rounds, rfl⟩ := Nat.exists_eq_add_one_of_ne_zero (Nat.ne_zero_of_lt hlen)
    have hk : (nextToken rest).kind ≠ .newline := by simp [hr]
    have hdrop := dropWhile_newlines hn hk
    simp [statements, bind_apply, hdrop, hr]
  | @last nl us s hn hs =>
    intro rounds hlen hle
    obtain ⟨rounds, rfl⟩ := Nat.exists_eq_add_one_of_ne_zero (Nat.ne_zero_of_lt hlen)
    have hs' : IsStatementWithin n us s := ⟨hs, hle s (List.mem_singleton_self s)⟩
    rw [List.append_assoc, statements_succ he hn hs' (.inr hr),
      bind_of_eq_ok _ (statementEnd_eq_ok_iff.2 (.inl ⟨hr, rfl⟩)),
      bind_of_eq_ok _ (statements_of_rbrace hr)]
    rfl
  | @line nl us s t vs ss hn hs ht _ ih =>
    intro rounds hlen hle
    obtain ⟨rounds, rfl⟩ := Nat.exists_eq_add_one_of_ne_zero (Nat.ne_zero_of_lt hlen)
    obtain ⟨hs', hss⟩ := List.forall_mem_cons.1 hle
    have hrest : statements expression rounds (vs ++ rest) = .ok (ss, rest) :=
      ih (by simp at hlen; omega) hss
    have hf : EndsStatement (nextToken (t :: (vs ++ rest))).kind := .inl ht
    rw [List.append_assoc, List.append_assoc, List.cons_append,
      statements_succ he hn ⟨hs, hs'⟩ hf,
      bind_of_eq_ok _ (statementEnd_eq_ok_iff.2 (.inr ⟨t, rfl, ht⟩)), bind_of_eq_ok _ hrest]
    rfl

/-! ### Functions -/

/-- What `parameter` checks of a parameter and the ones before it. -/
def NewAmong (earlier : List Identifier) (p : Identifier) : Prop := ∀ q ∈ earlier, q.name ≠ p.name

theorem admitted_newAmong_iff {earlier ps : List Identifier} :
    Admitted NewAmong earlier ps ↔
      (∀ p ∈ ps, NewAmong earlier p) ∧ (ps.map Identifier.name).Nodup := by
  induction ps generalizing earlier with
  | nil => simp [Admitted]
  | cons p ps ih =>
    simp only [Admitted, ih, NewAmong, List.forall_mem_cons, List.map_cons, List.nodup_cons,
      List.mem_map, not_exists, not_and]
    constructor
    · rintro ⟨hp, hps, hnodup⟩
      exact ⟨⟨hp, fun q hq => (hps q hq).2⟩, fun q hq h => (hps q hq).1 h.symm, hnodup⟩
    · rintro ⟨⟨hp, hps⟩, hne, hnodup⟩
      exact ⟨hp, fun q hq => ⟨fun h => hne q hq h.symm, hps q hq⟩, hnodup⟩

theorem parameter_reads (function : String) (earlier : List Identifier) :
    Reads (parameter function earlier) anything
      fun us p => IsIdentifier us p ∧ NewAmong earlier p where
  sound {ts rest p} h _ := by
    obtain ⟨q, mid, hi, hq⟩ := bind_eq_ok_iff.1 h
    split at hq
    · simp at hq
    · rename_i hany
      obtain ⟨rfl, rfl⟩ : q = p ∧ mid = rest := by simpa using hq
      obtain ⟨us, hus, hid⟩ := identifier_reads.sound hi trivial
      exact ⟨us, hus, hid, by simpa [NewAmong] using hany⟩
  complete {us rest p} h _ := by
    obtain ⟨hi, hnew⟩ := h
    have hany : ¬ earlier.any (·.name = p.name) = true := by simpa [NewAmong] using hnew
    rw [parameter, bind_of_eq_ok _ (identifier_reads.complete hi trivial), if_neg hany]
    rfl

/-- The parameters of a function have different names. -/
theorem parameters_reads (function : String) :
    Reads (parameters function) (· = .symbol .rparen)
      fun us ps => Listed IsIdentifier us ps ∧ (ps.map Identifier.name).Nodup := by
  have hh : ∀ {us p}, IsIdentifier us p → ∃ t vs, us = t :: vs ∧ StartsOperand t.kind := by
    rintro _ p ⟨lexeme, rfl⟩
    exact ⟨_, [], rfl, trivial⟩
  have hl := listed_reads (parameter_reads function) trivial trivial hh id
  have hiff : ∀ {ps}, Admitted NewAmong [] ps ↔ (ps.map Identifier.name).Nodup := by
    intro ps
    rw [admitted_newAmong_iff]
    exact and_iff_right fun p _ => List.forall_mem_nil _
  exact ⟨fun h hr => (hl.sound h hr).imp fun _ h => ⟨h.1, h.2.1, hiff.1 h.2.2⟩,
    fun h hr => hl.complete ⟨h.1, hiff.2 h.2⟩ hr⟩

theorem functionStart_eq_ok {ts rest : List Token} {t : Token}
    (h : functionStart ts = .ok (t, rest)) : ts = t :: rest ∧ t.kind = .keyword .funcKw := by
  rw [functionStart, bind_of_eq_ok _ (sees_apply _ _)] at h
  split at h
  · simp at h
  · exact expect_eq_ok (by simp) h

theorem functionStart_cons {t : Token} (ht : t.kind = .keyword .funcKw) (rest : List Token) :
    functionStart (t :: rest) = .ok (t, rest) := by
  simp [functionStart, bind_apply, ht, expect_cons ht]

theorem bodyStart_eq_ok {ts rest : List Token} (h : bodyStart ts = .ok ((), rest)) :
    ∃ t, ts = t :: rest ∧ t.kind = .newline := by
  rw [bodyStart, bind_apply, accept_apply] at h
  by_cases hk : (nextToken ts).kind = .newline
  · obtain ⟨t, us, rfl, ht⟩ := exists_cons_of_nextToken hk (by simp)
    obtain rfl : us = rest := by simpa [ht] using h
    exact ⟨t, rfl, ht⟩
  · simp [hk] at h

theorem bodyStart_cons {t : Token} (ht : t.kind = .newline) (rest : List Token) :
    bodyStart (t :: rest) = .ok ((), rest) := by
  simp [bodyStart, bind_apply, accept_apply, ht]

/-- A function that passes the checks: its parameters have different names, and its expressions
nest at most `n` deep. -/
structure Acceptable (n : Nat) (f : ScriptFunction) : Prop where
  nodup : (f.params.map Identifier.name).Nodup
  nesting_le : ∀ s ∈ f.body, s.value.nesting ≤ n

theorem scriptFunction_reads (he : Reads expression EndsExpression (IsExpressionWithin n)) :
    Reads (scriptFunction expression) anything fun us f => IsFunction us f ∧ Acceptable n f where
  sound {ts rest f} h _ := by
    obtain ⟨start, ts₁, hstart, h⟩ := bind_eq_ok_iff.1 h
    obtain ⟨name, ts₂, hname, h⟩ := bind_eq_ok_iff.1 h
    obtain ⟨lparen, ts₃, hlp, h⟩ := bind_eq_ok_iff.1 h
    obtain ⟨params, ts₄, hparams, h⟩ := bind_eq_ok_iff.1 h
    obtain ⟨rparen, ts₅, hrp, h⟩ := bind_eq_ok_iff.1 h
    obtain ⟨lbrace, ts₆, hlb, h⟩ := bind_eq_ok_iff.1 h
    obtain ⟨⟨⟩, ts₇, hnl, h⟩ := bind_eq_ok_iff.1 h
    rw [bind_of_eq_ok _ (tokensLeft_apply _)] at h
    obtain ⟨body, ts₈, hbody, h⟩ := bind_eq_ok_iff.1 h
    obtain ⟨rbrace, ts₉, hrb, h⟩ := bind_eq_ok_iff.1 h
    obtain ⟨rfl, rfl⟩ : (⟨name, params, body, start.span.merge rbrace.span⟩ : ScriptFunction) = f ∧
      ts₉ = rest := by simpa using h
    obtain ⟨rfl, krb⟩ := expect_eq_ok (by simp) hrb
    obtain ⟨vs, rfl, hvs, hle⟩ := statements_sound he hbody
    obtain ⟨newline, rfl, knl⟩ := bodyStart_eq_ok hnl
    obtain ⟨rfl, klb⟩ := expect_eq_ok (by simp) hlb
    obtain ⟨rfl, krp⟩ := expect_eq_ok (by simp) hrp
    obtain ⟨us, rfl, hus, hnodup⟩ := (parameters_reads name.name).sound hparams krp
    obtain ⟨rfl, klp⟩ := expect_eq_ok (by simp) hlp
    obtain ⟨ts, rfl, hts⟩ := identifier_reads.sound hname trivial
    obtain ⟨rfl, kstart⟩ := functionStart_eq_ok hstart
    refine ⟨start :: (ts ++ lparen :: (us ++ rparen :: lbrace :: newline :: (vs ++ [rbrace]))), ?_,
      .mk kstart hts klp hus krp klb knl hvs krb, hnodup, hle⟩
    simp
  complete {us rest f} h _ := by
    obtain ⟨h, hnodup, hle⟩ := h
    obtain @⟨start, ts, name, lparen, us, params, rparen, lbrace, newline, vs, body, rbrace, hstart,
      hname, hlp, hp, hrp, hlb, hnl, hb, hrb⟩ := h
    have hnext : (nextToken (rbrace :: rest)).kind = .symbol .rbrace := hrb
    have hbody : statements expression (vs ++ rbrace :: rest).length (vs ++ rbrace :: rest) =
        .ok (body, rbrace :: rest) := statements_complete he hb hnext (by simp) hle
    have hparams : parameters name.name
        (us ++ rparen :: lbrace :: newline :: (vs ++ rbrace :: rest)) =
          .ok (params, rparen :: lbrace :: newline :: (vs ++ rbrace :: rest)) :=
      (parameters_reads name.name).complete ⟨hp, hnodup⟩ hrp
    have hid : identifier
        (ts ++ lparen :: (us ++ rparen :: lbrace :: newline :: (vs ++ rbrace :: rest))) =
          .ok (name, lparen :: (us ++ rparen :: lbrace :: newline :: (vs ++ rbrace :: rest))) :=
      identifier_reads.complete hname trivial
    simp only [List.cons_append, List.append_assoc, List.nil_append]
    rw [scriptFunction, bind_of_eq_ok _ (functionStart_cons hstart _), bind_of_eq_ok _ hid,
      bind_of_eq_ok _ (expect_cons hlp _), bind_of_eq_ok _ hparams,
      bind_of_eq_ok _ (expect_cons hrp _), bind_of_eq_ok _ (expect_cons hlb _),
      bind_of_eq_ok _ (bodyStart_cons hnl _), bind_of_eq_ok _ (tokensLeft_apply _),
      bind_of_eq_ok _ hbody, bind_of_eq_ok _ (expect_cons hrb _)]
    rfl

end Reader

end Scriptlet
