import Scriptlet.Proofs.Grammar.Phrase
import Scriptlet.Proofs.Token.Order

/-!
# Spans and the stretches they were read from

Every node of a program comes from a stretch of the tokens, and its span is exactly that of the
stretch. The grammar puts spans together by merging the span of the first part with that of the
last one. As the tokens of a file are ordered, this amounts to the start of the first token and the
end of the last one, however many parts there are.

The relations here say of each kind of node which stretch it has, and what its parts have inside
that stretch. They leave out how the grammar chooses between readings.

## Main definitions

* `Grammar.InOrder` — items that have stretches of their own, one after the other
* `Grammar.ExpressionAt`, `StatementAt`, `FunctionAt`, `ImportAt` — nodes and the stretches they
  have

## Main results

* `Grammar.IsExpression.expressionAt`, `IsStatement.statementAt`, `IsFunction.functionAt`,
  `IsImport.importAt` — what the grammar reads from ordered tokens has exact spans
-/

namespace Scriptlet

namespace Grammar

variable {α : Type}

/-- Items have stretches of some tokens, one after the other. -/
inductive InOrder (item : List Token → α → Prop) : List Token → List α → Prop
  | nil {ts} : InOrder item ts []
  | cons {before ts after a as} (h : item ts a) (hs : InOrder item after as) :
      InOrder item (before ++ (ts ++ after)) (a :: as)

/-- An expression and the stretch from its first operand to its last token. -/
inductive ExpressionAt : List Token → Expr → Prop
  | primary {t e} (h : IsPrimary t e) : ExpressionAt [t] e
  | binary {us lhs t op vs rhs level span} (hl : ExpressionAt us lhs)
      (ht : IsOperator t.kind op level) (hr : ExpressionAt vs rhs)
      (hs : span.Covers (us ++ t :: vs)) :
      ExpressionAt (us ++ t :: vs) (.binary level lhs op t.span rhs span)
  | call {ts name lparen us args rparen span} (hn : IsIdentifier ts name)
      (hl : lparen.kind = .symbol .lparen) (ha : InOrder ExpressionAt us args)
      (hr : rparen.kind = .symbol .rparen) (hs : span.Covers (ts ++ lparen :: (us ++ [rparen]))) :
      ExpressionAt (ts ++ lparen :: (us ++ [rparen])) (.call name args span)

/-- A statement and its stretch, which is on one line: from `return` or the name of a declaration to
the end of the value. -/
inductive StatementAt : List Token → Stmt → Prop
  | result {t us value span} (ht : t.kind = .keyword .returnKw) (hv : ExpressionAt us value)
      (hs : span.Covers (t :: us)) (hl : OnOneLine (t :: us)) :
      StatementAt (t :: us) (.result value span)
  | declaration {ts name t us value span} (hn : IsIdentifier ts name)
      (ht : t.kind = .symbol .colonEq) (hv : ExpressionAt us value)
      (hs : span.Covers (ts ++ t :: us)) (hl : OnOneLine (ts ++ t :: us)) :
      StatementAt (ts ++ t :: us) (.declaration name value span)
  | expression {us value span} (hv : ExpressionAt us value) (hs : span.Covers us)
      (hl : OnOneLine us) : StatementAt us (.expression value span)

/-- A function and its stretch, from `func` to the closing brace. All before the statements is on
one line. -/
inductive FunctionAt : List Token → ScriptFunction → Prop
  | mk {start ts name lparen us params rparen lbrace vs body rbrace span}
      (hstart : start.kind = .keyword .funcKw) (hn : IsIdentifier ts name)
      (hlp : lparen.kind = .symbol .lparen) (hp : InOrder IsIdentifier us params)
      (hrp : rparen.kind = .symbol .rparen) (hlb : lbrace.kind = .symbol .lbrace)
      (hb : InOrder StatementAt vs body) (hrb : rbrace.kind = .symbol .rbrace)
      (hl : OnOneLine (start :: (ts ++ lparen :: (us ++ [rparen, lbrace]))))
      (hs : span.Covers
        (start :: (ts ++ lparen :: (us ++ rparen :: lbrace :: (vs ++ [rbrace]))))) :
      FunctionAt (start :: (ts ++ lparen :: (us ++ rparen :: lbrace :: (vs ++ [rbrace]))))
        ⟨name, params, body, span⟩

/-- The imports of a line and their stretch, from `import` to the name of the module. Every one of
them has the span of the whole line. -/
inductive ImportAt : List Token → List Import → Prop
  | mk {start lbrace us line rbrace origin module stop}
      (hstart : start.kind = .keyword .importKw) (hlb : lbrace.kind = .symbol .lbrace)
      (hn : InOrder (fun ts i => IsIdentifier ts i.name) us line)
      (hrb : rbrace.kind = .symbol .rbrace) (ho : origin.kind = .keyword .fromKw)
      (hm : stop.kind = .string module)
      (hl : OnOneLine (start :: lbrace :: (us ++ [rbrace, origin, stop])))
      (hs : ∀ i ∈ line, i.module = module ∧
        i.span.Covers (start :: lbrace :: (us ++ [rbrace, origin, stop]))) :
      ImportAt (start :: lbrace :: (us ++ [rbrace, origin, stop])) line

/-! ### Items in order -/

section

variable {β : Type} {item item' : List Token → α → Prop} {ts us : List Token} {as : List α}

theorem InOrder.prepend (h : InOrder item ts as) (us : List Token) :
    InOrder item (us ++ ts) as := by
  cases h with
  | nil => exact .nil
  | @cons before _ _ _ _ h hs =>
    rw [← List.append_assoc]
    exact .cons h hs

/-- Items behind the first one. -/
theorem InOrder.first {after : List Token} {a : α} (h : item ts a) (hs : InOrder item after as) :
    InOrder item (ts ++ after) (a :: as) :=
  @InOrder.cons _ item [] ts after a as h hs

/-- What is made of items in order is in order. -/
theorem InOrder.map {item' : List Token → β → Prop} {g : α → β} (h : InOrder item ts as)
    (hi : ∀ us a, item us a → item' us (g a)) : InOrder item' ts (as.map g) := by
  induction h with
  | nil => exact .nil
  | cons h _ ih => exact .cons (hi _ _ h) ih

/-- Items with commas between them are in order. -/
theorem CommaSeparated.inOrder (h : CommaSeparated item ts as)
    (hi : ∀ us, us <:+: ts → ∀ a, item us a → item' us a) : InOrder item' ts as := by
  induction h with
  | @one ts a h =>
    have := InOrder.first (hi _ List.infix_rfl _ h) (@InOrder.nil _ _ [])
    rwa [List.append_nil] at this
  | @more ts a comma us as h _ _ ih =>
    refine .first (hi _ List.infix_append_left _ h) ?_
    exact (ih fun vs hvs => hi vs (hvs.trans (List.infix_append_of_infix_right
      (List.infix_cons List.infix_rfl)))).prepend [comma]

theorem Listed.inOrder (h : Listed item ts as)
    (hi : ∀ us, us <:+: ts → ∀ a, item us a → item' us a) : InOrder item' ts as := by
  cases h with
  | none => exact .nil
  | some h => exact h.inOrder hi

theorem Lines.inOrder (h : Lines item ts as)
    (hi : ∀ us, us <:+: ts → ∀ a, item us a → item' us a) : InOrder item' ts as := by
  induction h with
  | nil => exact .nil
  | @cons ts a us vs as h _ _ ih =>
    refine .first (hi _ List.infix_append_left _ h) ?_
    exact (ih fun ws hws => hi ws (hws.trans (List.infix_append_of_infix_right
      List.infix_append_right))).prepend us

end

/-! ### What the grammar reads -/

theorem IsPrimary.covers {t : Token} {e : Expr} (h : IsPrimary t e) : e.span.Covers [t] := by
  cases h <;> exact Span.covers_singleton t

theorem IsIdentifier.covers {ts : List Token} {name : Identifier} (h : IsIdentifier ts name) :
    name.span.Covers ts := by
  obtain ⟨lexeme, rfl⟩ := h
  exact Span.covers_singleton _

theorem ExpressionAt.covers {ts : List Token} {e : Expr} (h : ExpressionAt ts e) :
    e.span.Covers ts := by
  cases h with
  | primary h => exact h.covers
  | binary _ _ _ hs => exact hs
  | call _ _ _ _ hs => exact hs

theorem IsOperand.expressionAt {ts : List Token} {e : Expr} (ho : Ordered ts)
    (h : IsOperand (fun us d => IsExpression us d ∧ (Ordered us → ExpressionAt us d)) ts e) :
    ExpressionAt ts e := by
  cases h with
  | primary h => exact .primary h
  | @call ts name lparen us args rparen hn hl ha hr =>
    have hus : us <:+: ts ++ lparen :: (us ++ [rparen]) :=
      List.infix_append_of_infix_right (List.infix_cons List.infix_append_left)
    have hargs : InOrder ExpressionAt us args :=
      ha.inOrder fun vs hvs d hd => hd.2 (ho.part (hvs.trans hus))
    exact .call hn hl hargs hr (hn.covers.merge (Span.covers_singleton rparen) (lparen :: us) ho)

/-- **What the grammar reads from ordered tokens has exact spans**: expressions. -/
theorem IsExpression.expressionAt {ts : List Token} {e : Expr} (h : IsExpression ts e) :
    Ordered ts → ExpressionAt ts e := by
  refine IsExpression.induct (P := fun ts e => Ordered ts → ExpressionAt ts e)
    (fun h ho => h.expressionAt ho) ?_ h
  intro ts lhs t op level us rhs hl ht _ ih ho
  have hlhs := hl.expressionAt (ho.part List.infix_append_left)
  have hrhs := ih (ho.part (List.infix_append_of_infix_right (List.infix_cons List.infix_rfl)))
  exact .binary hlhs ht hrhs (hlhs.covers.merge hrhs.covers [t] ho)

theorem IsStatement.no_newline {ts : List Token} {s : Stmt} (h : IsStatement ts s) :
    ∀ t ∈ ts, t.kind ≠ .newline := by
  cases h with
  | result ht hv =>
    exact List.forall_mem_cons.2 ⟨by simp [ht], fun t ht => (hv.inExpression t ht).ne.1⟩
  | declaration hn ht hv =>
    obtain ⟨lexeme, rfl⟩ := hn
    simp only [List.forall_mem_append, List.forall_mem_cons]
    exact ⟨⟨by simp, List.forall_mem_nil _⟩, by simp [ht], fun t ht => (hv.inExpression t ht).ne.1⟩
  | expression hv => exact fun t ht => (hv.inExpression t ht).ne.1

/-- **What the grammar reads from ordered tokens has exact spans**: statements. -/
theorem IsStatement.statementAt {ts : List Token} {s : Stmt} (h : IsStatement ts s)
    (ho : Ordered ts) : StatementAt ts s := by
  have hline : OnOneLine ts := ho.line ts List.infix_rfl h.no_newline
  cases h with
  | @result t us value ht hv =>
    have hvalue := hv.expressionAt (ho.part (List.infix_cons List.infix_rfl))
    exact .result ht hvalue ((Span.covers_singleton t).merge hvalue.covers [] ho) hline
  | @declaration ts name t us value hn ht hv =>
    have hvalue := hv.expressionAt
      (ho.part (List.infix_append_of_infix_right (List.infix_cons List.infix_rfl)))
    exact .declaration hn ht hvalue (hn.covers.merge hvalue.covers [t] ho) hline
  | expression hv =>
    have hvalue := hv.expressionAt ho
    exact .expression hvalue hvalue.covers hline

theorem IsBody.inOrder {ts : List Token} {ss : List Stmt} (h : IsBody ts ss) (ho : Ordered ts) :
    InOrder StatementAt ts ss := by
  induction h with
  | blank => exact .nil
  | @last ts us s _ hs =>
    have hus := hs.statementAt (ho.part List.infix_append_right)
    have hlast := (InOrder.first hus (@InOrder.nil _ _ [])).prepend ts
    rwa [List.append_nil] at hlast
  | @line ts us s t vs ss _ hs _ _ ih =>
    have hus := hs.statementAt (ho.part (List.infix_append' ..))
    have hvs := ih (ho.part (List.infix_append_of_infix_right
      (List.infix_append_of_infix_right (List.infix_cons List.infix_rfl))))
    exact .cons hus (hvs.prepend [t])

/-- Names stand in a row without line ends. -/
theorem IsIdentifier.no_newline {ts : List Token} {name : Identifier} (h : IsIdentifier ts name) :
    ∀ t ∈ ts, t.kind ≠ .newline := by
  obtain ⟨lexeme, rfl⟩ := h
  simp

/-- **What the grammar reads from ordered tokens has exact spans**: functions. -/
theorem IsFunction.functionAt {ts : List Token} {f : ScriptFunction} (h : IsFunction ts f)
    (ho : Ordered ts) : FunctionAt ts f := by
  obtain @⟨start, ts, name, lparen, us, params, rparen, lbrace, newline, vs, body, rbrace, hs, hn,
    hlp, hp, hrp, hlb, hnl, hb, hrb⟩ := h
  have hheader : OnOneLine (start :: (ts ++ lparen :: (us ++ [rparen, lbrace]))) := by
    refine ho.line _ ⟨[], newline :: (vs ++ [rbrace]), by simp⟩ ?_
    have hus := hp.forall_mem (fun _ _ h => h.no_newline) fun t ht => by simp [ht]
    simp only [List.forall_mem_append, List.forall_mem_cons, hs, hlp, hrp, hlb]
    exact ⟨by simp, hn.no_newline, by simp, hus, by simp, by simp, List.forall_mem_nil _⟩
  have hbody : InOrder StatementAt vs body :=
    hb.inOrder (ho.part ⟨start :: (ts ++ lparen :: (us ++ [rparen, lbrace, newline])), [rbrace],
      by simp⟩)
  have hspan : (start.span.merge rbrace.span).Covers
      ([start] ++ ((ts ++ lparen :: (us ++ rparen :: lbrace :: newline :: vs)) ++ [rbrace])) :=
    (Span.covers_singleton start).merge (Span.covers_singleton rbrace) _ (by simpa using ho)
  have hparams : InOrder IsIdentifier us params := hp.inOrder fun _ _ _ h => h
  exact .mk hs hn hlp hparams hrp hlb (hbody.prepend [newline]) hrb hheader (by simpa using hspan)

/-- **What the grammar reads from ordered tokens has exact spans**: imports. -/
theorem IsImport.importAt {ts : List Token} {line : List Import} (h : IsImport ts line)
    (ho : Ordered ts) : ImportAt ts line := by
  obtain @⟨start, lbrace, us, names, rbrace, origin, module, stop, hs, hlb, hn, hrb, horigin,
    hm⟩ := h
  have hline : OnOneLine (start :: lbrace :: (us ++ [rbrace, origin, stop])) := by
    refine ho.line _ List.infix_rfl ?_
    have hus := hn.forall_mem (fun _ _ h => h.no_newline) fun t ht => by simp [ht]
    simp only [List.forall_mem_append, List.forall_mem_cons, hs, hlb, hrb, horigin, hm]
    exact ⟨by simp, by simp, hus, by simp, by simp, by simp, List.forall_mem_nil _⟩
  have hspan : (start.span.merge stop.span).Covers
      ([start] ++ ((lbrace :: (us ++ [rbrace, origin])) ++ [stop])) :=
    (Span.covers_singleton start).merge (Span.covers_singleton stop) _ (by simpa using ho)
  have hnames : InOrder IsIdentifier us names := hn.inOrder fun _ _ _ h => h
  exact .mk hs hlb (hnames.map fun _ _ h => h) hrb horigin hm hline
    (List.forall_mem_map.2 fun _ _ => ⟨rfl, by simpa using hspan⟩)

end Grammar

end Scriptlet
