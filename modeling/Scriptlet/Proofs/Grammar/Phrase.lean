import Scriptlet.Grammar.Program

/-!
# The grammar of programs

What rows of tokens are expressions, statements, functions, imports and programs, and what they
stand for, without regard to how they are read.

```
Program    = newlines (Import newlines)* (Function newlines)*
Import     = 'import' '{' identifier (',' identifier)* '}' 'from' string
Function   = 'func' identifier '(' (identifier (',' identifier)*)? ')' '{' newline Body '}'
Body       = newlines (Statement (newline Body)?)?
Statement  = 'return' Expression | identifier ':=' Expression | Expression
Expression = Operand (operator Expression)?
Operand    = identifier '(' (Expression (',' Expression)*)? ')'
           | number | 'true' | 'false' | string | identifier
```

An operator is one of `==`, `!=`, `+`, `-`, `*` and `/`. A phrase has no newlines but where the
rules name them. Names may repeat and expressions may nest without bound here; `Expr.nesting`
measures how deep they do.

## Main definitions

* `Grammar.IsOperator` — the operators with their tokens and their levels
* `Grammar.IsExpression`, `IsStatement`, `IsBody`, `IsFunction`, `IsImport`, `IsProgram`
* `Expr.nesting` — how deep an expression nests

## Main results

* `Grammar.IsExpression.induct` — induction over the phrases inside an expression
* `Grammar.IsProgram.noEnd` — no mark of the end stands inside a program
-/

namespace Scriptlet

namespace Expr

mutual

/-- How deep an expression nests. A literal or a variable has depth one, and a right operand or an
argument lies one level deeper than the expression that it belongs to. -/
def nesting : Expr → Nat
  | binary _ lhs _ _ rhs _ => max lhs.nesting (rhs.nesting + 1)
  | call _ args _ => nestingAll args + 1
  | number _ _ | bool _ _ | string _ _ | identifier _ _ => 1

/-- How deep the deepest of some expressions nests. -/
def nestingAll : List Expr → Nat
  | [] => 0
  | e :: es => max e.nesting (nestingAll es)

end

theorem nestingAll_le_iff {es : List Expr} {n : Nat} :
    nestingAll es ≤ n ↔ ∀ e ∈ es, e.nesting ≤ n := by
  induction es with
  | nil => simp [nestingAll]
  | cons e es ih => rw [nestingAll, Nat.max_le, ih, List.forall_mem_cons]

theorem nesting_pos (e : Expr) : 0 < e.nesting := by
  cases e <;> simp only [nesting] <;> omega

end Expr

/-- A kind that is read as an operator is none that is not. -/
theorem Operator.ne_of_ofKind? {k k' : Token.Kind} {op : Operator}
    (h : Operator.ofKind? k = some op) (h' : Operator.ofKind? k' = none) : k ≠ k' := by
  rintro rfl
  exact absurd (h.symm.trans h') (by simp)

/-- The expression of a statement. -/
def Stmt.value : Stmt → Expr
  | .declaration _ value _ | .result value _ | .expression value _ => value

namespace Grammar

variable {α : Type}

/-! ### Rows of items -/

/-- Nothing but line ends. -/
def Newlines (ts : List Token) : Prop := ∀ t ∈ ts, t.kind = .newline

/-- One or more items, with commas between them. -/
inductive CommaSeparated (item : List Token → α → Prop) : List Token → List α → Prop
  | one {ts a} (h : item ts a) : CommaSeparated item ts [a]
  | more {ts a comma us as} (h : item ts a) (hc : comma.kind = .symbol .comma)
      (hs : CommaSeparated item us as) : CommaSeparated item (ts ++ comma :: us) (a :: as)

/-- What may stand between parentheses: no items, or items with commas between them. -/
inductive Listed (item : List Token → α → Prop) : List Token → List α → Prop
  | none : Listed item [] []
  | some {ts as} (h : CommaSeparated item ts as) : Listed item ts as

/-- Items one after the other, each with any number of line ends behind it. -/
inductive Lines (item : List Token → α → Prop) : List Token → List α → Prop
  | nil : Lines item [] []
  | cons {ts a us vs as} (h : item ts a) (hn : Newlines us) (hs : Lines item vs as) :
      Lines item (ts ++ (us ++ vs)) (a :: as)

/-! ### Expressions -/

/-- The kinds of the tokens of operators, with the operator and the level that each stands for. -/
inductive IsOperator : Token.Kind → Operator → Level → Prop
  | eq : IsOperator (.symbol .eqEq) .eq .equality
  | notEq : IsOperator (.symbol .bangEq) .notEq .equality
  | add : IsOperator (.symbol .plus) .add .term
  | sub : IsOperator (.symbol .minus) .sub .term
  | mul : IsOperator (.symbol .star) .mul .factor
  | div : IsOperator (.symbol .slash) .div .factor

/-- A single identifier. -/
def IsIdentifier (ts : List Token) (name : Identifier) : Prop :=
  ∃ lexeme, ts = [⟨.identifier name.name, lexeme, name.span⟩]

/-- A literal or a variable, and what it stands for. -/
inductive IsPrimary : Token → Expr → Prop
  | number {t x} (h : t.kind = .number x) : IsPrimary t (.number x t.span)
  | true {t} (h : t.kind = .keyword .trueKw) : IsPrimary t (.bool true t.span)
  | false {t} (h : t.kind = .keyword .falseKw) : IsPrimary t (.bool false t.span)
  | string {t s} (h : t.kind = .string s) : IsPrimary t (.string s t.span)
  | identifier {t name} (h : t.kind = .identifier name) : IsPrimary t (.identifier name t.span)

/-- A call or a primary, where `expression` says what the arguments are. -/
inductive IsOperand (expression : List Token → Expr → Prop) : List Token → Expr → Prop
  | primary {t e} (h : IsPrimary t e) : IsOperand expression [t] e
  | call {ts name lparen us args rparen} (hn : IsIdentifier ts name)
      (hl : lparen.kind = .symbol .lparen) (ha : Listed expression us args)
      (hr : rparen.kind = .symbol .rparen) :
      IsOperand expression (ts ++ lparen :: (us ++ [rparen]))
        (.call name args (name.span.merge rparen.span))

/-- An operand, or an operand, an operator and an expression, which is then the whole right
operand. -/
inductive IsExpression : List Token → Expr → Prop
  | operand {ts e} (h : IsOperand IsExpression ts e) : IsExpression ts e
  | binary {ts lhs t op level us rhs} (hl : IsOperand IsExpression ts lhs)
      (ht : IsOperator t.kind op level) (hr : IsExpression us rhs) :
      IsExpression (ts ++ t :: us) (.binary level lhs op t.span rhs (lhs.span.merge rhs.span))

/-! ### Statements, functions and programs -/

/-- One statement without its end. -/
inductive IsStatement : List Token → Stmt → Prop
  | result {t ts value} (ht : t.kind = .keyword .returnKw) (hv : IsExpression ts value) :
      IsStatement (t :: ts) (.result value (t.span.merge value.span))
  | declaration {ts name t us value} (hn : IsIdentifier ts name)
      (ht : t.kind = .symbol .colonEq) (hv : IsExpression us value) :
      IsStatement (ts ++ t :: us) (.declaration name value (name.span.merge value.span))
  | expression {ts value} (hv : IsExpression ts value) :
      IsStatement ts (.expression value value.span)

/-- The statements between the line end after `{` and the closing brace. -/
inductive IsBody : List Token → List Stmt → Prop
  | blank {ts} (hn : Newlines ts) : IsBody ts []
  | last {ts us s} (hn : Newlines ts) (hs : IsStatement us s) : IsBody (ts ++ us) [s]
  | line {ts us s t vs ss} (hn : Newlines ts) (hs : IsStatement us s) (ht : t.kind = .newline)
      (hb : IsBody vs ss) : IsBody (ts ++ (us ++ t :: vs)) (s :: ss)

/-- A function of the script. -/
inductive IsFunction : List Token → ScriptFunction → Prop
  | mk {start ts name lparen us params rparen lbrace newline vs body rbrace}
      (hs : start.kind = .keyword .funcKw) (hn : IsIdentifier ts name)
      (hlp : lparen.kind = .symbol .lparen) (hp : Listed IsIdentifier us params)
      (hrp : rparen.kind = .symbol .rparen) (hlb : lbrace.kind = .symbol .lbrace)
      (hnl : newline.kind = .newline) (hb : IsBody vs body)
      (hrb : rbrace.kind = .symbol .rbrace) :
      IsFunction
        (start :: (ts ++ lparen :: (us ++ rparen :: lbrace :: newline :: (vs ++ [rbrace]))))
        ⟨name, params, body, start.span.merge rbrace.span⟩

/-- An import of one or more names from a module. -/
inductive IsImport : List Token → List Import → Prop
  | mk {start lbrace ts names rbrace origin module stop}
      (hs : start.kind = .keyword .importKw) (hl : lbrace.kind = .symbol .lbrace)
      (hn : CommaSeparated IsIdentifier ts names) (hr : rbrace.kind = .symbol .rbrace)
      (ho : origin.kind = .keyword .fromKw) (hm : stop.kind = .string module) :
      IsImport (start :: lbrace :: (ts ++ [rbrace, origin, stop]))
        (names.map fun name => ⟨name, module, start.span.merge stop.span⟩)

/-- A whole program: the imports of all lines, and the functions. -/
inductive IsProgram : List Token → List Import → List ScriptFunction → Prop
  | mk {ts us vs lines functions} (hn : Newlines ts) (hi : Lines IsImport us lines)
      (hf : Lines IsFunction vs functions) :
      IsProgram (ts ++ (us ++ vs)) lines.flatten functions

/-! ### Operators -/

/-- What is read as an operator is one, and its node is on its level. -/
theorem isOperator_iff {k : Token.Kind} {op : Operator} {level : Level} :
    IsOperator k op level ↔ Operator.ofKind? k = some op ∧ op.level = level := by
  constructor
  · rintro ⟨⟩ <;> exact ⟨rfl, rfl⟩
  · rintro ⟨h, rfl⟩
    unfold Operator.ofKind? at h
    split at h <;> cases h <;> constructor

/-- The kind of an operator is none that stands for no operator. -/
theorem IsOperator.ne {k k' : Token.Kind} {op : Operator} {level : Level}
    (h : IsOperator k op level) (h' : ∀ op level, ¬ IsOperator k' op level) : k ≠ k' := by
  rintro rfl
  exact h' op level h

/-! ### How phrases start -/

/-- Operands start with a literal or an identifier. -/
def StartsOperand : Token.Kind → Prop
  | .number _ | .string _ | .identifier _ | .keyword .trueKw | .keyword .falseKw => True
  | _ => False

theorem IsPrimary.starts {t : Token} {e : Expr} (h : IsPrimary t e) : StartsOperand t.kind := by
  cases h <;> simp_all [StartsOperand]

theorem IsOperand.head {expression : List Token → Expr → Prop} {ts : List Token} {e : Expr}
    (h : IsOperand expression ts e) : ∃ t us, ts = t :: us ∧ StartsOperand t.kind := by
  cases h with
  | primary h => exact ⟨_, [], rfl, h.starts⟩
  | call hn _ _ _ =>
    obtain ⟨lexeme, rfl⟩ := hn
    exact ⟨_, _, rfl, trivial⟩

theorem IsExpression.head {ts : List Token} {e : Expr} (h : IsExpression ts e) :
    ∃ t us, ts = t :: us ∧ StartsOperand t.kind := by
  cases h with
  | operand h => exact h.head
  | binary hl _ _ =>
    obtain ⟨t, us, rfl, ht⟩ := hl.head
    exact ⟨t, _, rfl, ht⟩

theorem IsStatement.head {ts : List Token} {s : Stmt} (h : IsStatement ts s) :
    ∃ t us, ts = t :: us ∧ (t.kind = .keyword .returnKw ∨ StartsOperand t.kind) := by
  cases h with
  | result ht _ => exact ⟨_, _, rfl, .inl ht⟩
  | declaration hn _ _ =>
    obtain ⟨lexeme, rfl⟩ := hn
    exact ⟨_, _, rfl, .inr trivial⟩
  | expression hv =>
    obtain ⟨t, us, rfl, ht⟩ := hv.head
    exact ⟨t, us, rfl, .inr ht⟩

/-- An identifier at the start of an expression is never followed by `:=`, so two tokens tell a
declaration from an expression. -/
theorem IsOperand.second {expression : List Token → Expr → Prop} {ts us : List Token} {t u : Token}
    {e : Expr} (h : IsOperand expression ts e) (hts : ts = t :: u :: us) :
    u.kind = .symbol .lparen := by
  cases h with
  | primary _ => simp at hts
  | call hn hl _ _ =>
    obtain ⟨lexeme, rfl⟩ := hn
    obtain ⟨-, rfl, -⟩ := by simpa using hts
    exact hl

theorem CommaSeparated.head {item : List Token → α → Prop} {starts : Token.Kind → Prop}
    (hi : ∀ {ts a}, item ts a → ∃ t us, ts = t :: us ∧ starts t.kind) {ts : List Token}
    {as : List α} (h : CommaSeparated item ts as) : ∃ t us, ts = t :: us ∧ starts t.kind := by
  cases h with
  | one h => exact hi h
  | more h _ _ =>
    obtain ⟨t, us, rfl, ht⟩ := hi h
    exact ⟨t, _, rfl, ht⟩

/-! ### Induction over expressions -/

theorem CommaSeparated.mono {item item' : List Token → α → Prop} {ts : List Token} {as : List α}
    (h : CommaSeparated item ts as) (hi : ∀ us, ∀ a ∈ as, item us a → item' us a) :
    CommaSeparated item' ts as := by
  induction h with
  | one h => exact .one (hi _ _ (List.mem_singleton_self _) h)
  | more h hc _ ih =>
    exact .more (hi _ _ List.mem_cons_self h) hc
      (ih fun us a ha => hi us a (List.mem_cons_of_mem _ ha))

theorem Listed.mono {item item' : List Token → α → Prop} {ts : List Token} {as : List α}
    (h : Listed item ts as) (hi : ∀ us, ∀ a ∈ as, item us a → item' us a) : Listed item' ts as := by
  cases h with
  | none => exact .none
  | some h => exact .some (h.mono hi)

theorem IsOperand.mono {expression expression' : List Token → Expr → Prop} {ts : List Token}
    {e : Expr} (h : IsOperand expression ts e)
    (hi : ∀ us e, expression us e → expression' us e) : IsOperand expression' ts e := by
  cases h with
  | primary h => exact .primary h
  | call hn hl ha hr => exact .call hn hl (ha.mono fun us e _ => hi us e) hr

/-- What holds of an expression if it holds of the arguments of its operand and of its right
operand holds of every expression. -/
theorem IsExpression.induct {P : List Token → Expr → Prop}
    (operand : ∀ {ts e}, IsOperand (fun us e => IsExpression us e ∧ P us e) ts e → P ts e)
    (binary : ∀ {ts lhs t op level us rhs},
      IsOperand (fun us e => IsExpression us e ∧ P us e) ts lhs →
      IsOperator t.kind op level → IsExpression us rhs → P us rhs →
        P (ts ++ t :: us) (.binary level lhs op t.span rhs (lhs.span.merge rhs.span)))
    {ts : List Token} {e : Expr} (h : IsExpression ts e) : P ts e :=
  @IsExpression.rec (fun ts e _ => P ts e)
    (fun ts e _ => IsOperand (fun us e => IsExpression us e ∧ P us e) ts e)
    (fun ts es _ => Listed (fun us e => IsExpression us e ∧ P us e) ts es)
    (fun ts es _ => CommaSeparated (fun us e => IsExpression us e ∧ P us e) ts es)
    (fun _ ih => operand ih) (fun _ ht hr ihl ihr => binary ihl ht hr ihr)
    (fun h => .primary h) (fun hn hl _ hr ih => .call hn hl ih hr)
    .none (fun _ ih => .some ih)
    (fun h ih => .one ⟨h, ih⟩) (fun h hc _ ih ihs => .more ⟨h, ih⟩ hc ihs) ts e h

/-! ### The tokens of an expression -/

/-- Kinds of tokens that stand in expressions: those that start operands, operators, and what stands
around arguments. -/
def InExpression (k : Token.Kind) : Prop :=
  StartsOperand k ∨ (∃ op level, IsOperator k op level) ∨ k = .symbol .lparen ∨
    k = .symbol .rparen ∨ k = .symbol .comma

theorem InExpression.ne {k : Token.Kind} (h : InExpression k) : k ≠ .newline ∧ k ≠ .endOfFile := by
  constructor <;> rintro rfl <;> obtain h | ⟨_, _, h⟩ | h | h | h := h <;> cases h

theorem CommaSeparated.forall_mem {item : List Token → α → Prop} {P : Token → Prop}
    (hi : ∀ ts a, item ts a → ∀ t ∈ ts, P t) (hP : ∀ t : Token, t.kind = .symbol .comma → P t)
    {ts : List Token} {as : List α} (h : CommaSeparated item ts as) : ∀ t ∈ ts, P t := by
  induction h with
  | one h => exact hi _ _ h
  | more h hc _ ih =>
    exact List.forall_mem_append.2 ⟨hi _ _ h, List.forall_mem_cons.2 ⟨hP _ hc, ih⟩⟩

theorem Listed.forall_mem {item : List Token → α → Prop} {P : Token → Prop}
    (hi : ∀ ts a, item ts a → ∀ t ∈ ts, P t) (hP : ∀ t : Token, t.kind = .symbol .comma → P t)
    {ts : List Token} {as : List α} (h : Listed item ts as) : ∀ t ∈ ts, P t := by
  cases h with
  | none => exact List.forall_mem_nil _
  | some h => exact h.forall_mem hi hP

theorem IsOperand.inExpression {expression : List Token → Expr → Prop}
    (he : ∀ ts e, expression ts e → ∀ t ∈ ts, InExpression t.kind) {ts : List Token} {e : Expr}
    (h : IsOperand expression ts e) : ∀ t ∈ ts, InExpression t.kind := by
  cases h with
  | primary h => exact List.forall_mem_singleton.2 (.inl h.starts)
  | call hn hl ha hr =>
    obtain ⟨lexeme, rfl⟩ := hn
    have hargs := ha.forall_mem he fun t ht => .inr (.inr (.inr (.inr ht)))
    simp only [List.forall_mem_append, List.forall_mem_cons]
    exact ⟨⟨.inl trivial, List.forall_mem_nil _⟩, .inr (.inr (.inl hl)), hargs,
      .inr (.inr (.inr (.inl hr))), List.forall_mem_nil _⟩

theorem IsExpression.inExpression {ts : List Token} {e : Expr} (h : IsExpression ts e) :
    ∀ t ∈ ts, InExpression t.kind := by
  refine IsExpression.induct (P := fun ts _ => ∀ t ∈ ts, InExpression t.kind) ?_ ?_ h
  · intro ts e h
    exact h.inExpression fun _ _ h => h.2
  · intro ts lhs t op level us rhs hl ht _ ih
    have hlhs := hl.inExpression fun _ _ h => h.2
    exact List.forall_mem_append.2
      ⟨hlhs, List.forall_mem_cons.2 ⟨.inr (.inl ⟨op, level, ht⟩), ih⟩⟩

/-! ### No mark of the end inside phrases -/

/-- No mark of the end. -/
def NoEnd (ts : List Token) : Prop := ∀ t ∈ ts, t.kind ≠ .endOfFile

theorem NoEnd.nil : NoEnd [] := List.forall_mem_nil _

theorem noEnd_cons {t : Token} {ts : List Token} :
    NoEnd (t :: ts) ↔ t.kind ≠ .endOfFile ∧ NoEnd ts := List.forall_mem_cons

theorem noEnd_append {ts us : List Token} : NoEnd (ts ++ us) ↔ NoEnd ts ∧ NoEnd us :=
  List.forall_mem_append

theorem Newlines.noEnd {ts : List Token} (h : Newlines ts) : NoEnd ts := by
  intro t ht
  rw [h t ht]
  decide

theorem Lines.noEnd {item : List Token → α → Prop} (hi : ∀ ts a, item ts a → NoEnd ts)
    {ts : List Token} {as : List α} (h : Lines item ts as) : NoEnd ts := by
  induction h with
  | nil => exact .nil
  | cons h hn _ ih => exact noEnd_append.2 ⟨hi _ _ h, noEnd_append.2 ⟨hn.noEnd, ih⟩⟩

theorem IsIdentifier.noEnd {ts : List Token} {name : Identifier} (h : IsIdentifier ts name) :
    NoEnd ts := by
  obtain ⟨lexeme, rfl⟩ := h
  simp [NoEnd]

theorem IsExpression.noEnd {ts : List Token} {e : Expr} (h : IsExpression ts e) : NoEnd ts :=
  fun t ht => (h.inExpression t ht).ne.2

theorem IsStatement.noEnd {ts : List Token} {s : Stmt} (h : IsStatement ts s) : NoEnd ts := by
  cases h with
  | result ht hv => exact noEnd_cons.2 ⟨by simp [ht], hv.noEnd⟩
  | declaration hn ht hv =>
    exact noEnd_append.2 ⟨hn.noEnd, noEnd_cons.2 ⟨by simp [ht], hv.noEnd⟩⟩
  | expression hv => exact hv.noEnd

theorem IsBody.noEnd {ts : List Token} {ss : List Stmt} (h : IsBody ts ss) : NoEnd ts := by
  induction h with
  | blank hn => exact hn.noEnd
  | last hn hs => exact noEnd_append.2 ⟨hn.noEnd, hs.noEnd⟩
  | line hn hs ht _ ih =>
    exact noEnd_append.2 ⟨hn.noEnd, noEnd_append.2 ⟨hs.noEnd, noEnd_cons.2 ⟨by simp [ht], ih⟩⟩⟩

theorem IsFunction.noEnd {ts : List Token} {f : ScriptFunction} (h : IsFunction ts f) :
    NoEnd ts := by
  obtain ⟨hs, hn, hlp, hp, hrp, hlb, hnl, hb, hrb⟩ := h
  have hparams : NoEnd _ := hp.forall_mem (fun _ _ => IsIdentifier.noEnd) (by simp +contextual)
  simp only [noEnd_append, noEnd_cons, hs, hlp, hrp, hlb, hnl, hrb]
  exact ⟨by decide, hn.noEnd, by decide, hparams, by decide, by decide, by decide, hb.noEnd,
    by decide, .nil⟩

theorem IsImport.noEnd {ts : List Token} {line : List Import} (h : IsImport ts line) :
    NoEnd ts := by
  obtain ⟨hs, hl, hn, hr, ho, hm⟩ := h
  have hnames : NoEnd _ := hn.forall_mem (fun _ _ => IsIdentifier.noEnd) (by simp +contextual)
  simp only [noEnd_append, noEnd_cons, hs, hl, hr, ho, hm]
  exact ⟨by decide, by decide, hnames, by decide, by decide, by simp, .nil⟩

theorem IsProgram.noEnd {ts : List Token} {imports : List Import}
    {functions : List ScriptFunction} (h : IsProgram ts imports functions) : NoEnd ts := by
  obtain ⟨hn, hi, hf⟩ := h
  exact noEnd_append.2 ⟨hn.noEnd, noEnd_append.2
    ⟨hi.noEnd fun _ _ => IsImport.noEnd, hf.noEnd fun _ _ => IsFunction.noEnd⟩⟩

end Grammar

end Scriptlet
