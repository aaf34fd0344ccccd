import Scriptlet.Proofs.Grammar.Extent

/-!
# Walks that go along with readers

The contract of `Extent.Follows`, from the loops over tokens up to whole programs. Every loop takes
a token in each round and so never runs out of rounds, nor do nested expressions: before one is
entered, an operator or a parenthesis has been taken.

## Main definitions

* `Walked.closed` — a walk with an expression around it

## Main results

* `Walker.Extent.expression_follows` — at each depth, the reader has the budget that is left there
* `Walker.Extent.program_follows`
-/

namespace Scriptlet

/-- The end of a walk that was made inside one more expression, which was entered at `c`. -/
def Walked.closed {α : Type} (c : Cursor) (out : Walked α) : Walked α :=
  ⟨out.result, out.cursor.shallower, .enter c.position (c.depth + 1) :: out.steps⟩

theorem Walker.cut_closed {α : Type} (w : Walker) (c : Cursor) (out : Walked α) :
    w.cut (out.closed c) =
      if maxNesting < c.depth + 1 then some (.error (.nestingLimit (w.tokenAt c.position).span))
      else w.cut out := by
  rw [cut, Walked.closed, firstDeep_enter]
  by_cases hd : maxNesting < c.depth + 1
  · rw [if_pos hd, if_pos hd]
  · rw [if_neg hd, if_neg hd, cut]

namespace Walker.Extent

variable {α : Type} {w : Walker} {x : w.Extent} {c c' : Cursor}

/-! ### Items with commas between them -/

section

variable {item : List α → Walk α} {readItem : List α → Reader α} {P : α → Prop}

theorem itemsWithin_follows
    (hi : ∀ earlier c', x.After c c' → x.Follows c' (item earlier c') (readItem earlier)
      fun a c'' => P a ∧ c'.position < c''.position) :
    ∀ {rounds n : Nat} {earlier : List α} {c' : Cursor}, x.After c c' →
      x.before.length < c'.position + rounds → x.before.length < c'.position + n →
        x.Follows c' (w.itemsWithin item rounds earlier c') (Reader.itemsWithin readItem n earlier)
          fun as _ => ∀ a ∈ as, P a := by
  intro rounds
  induction rounds with
  | zero =>
    intro n earlier c' h hr
    exact absurd h.within (Nat.not_le.2 hr)
  | succ rounds ih =>
    intro n earlier c' h hr hn
    cases n with
    | zero => exact absurd h.within (Nat.not_le.2 hn)
    | succ n =>
      refine (hi earlier c' h).bind fun a c₁ h₁ ha => ?_
      refine (accept_follows h₁.within (by simp)).bind fun b c₂ h₂ _ => ?_
      have hafter := (h.trans h₁).trans h₂
      have hle := h₂.position_le
      cases b with
      | true =>
        refine (ih hafter (by omega) (by omega)).bind fun as c₃ h₃ has => ?_
        exact .pure h₃.within (List.forall_mem_cons.2 ⟨ha.1, has⟩)
      | false => exact .pure h₂.within (List.forall_mem_singleton.2 ha.1)

theorem commaSeparated_follows (h : x.Within c)
    (hi : ∀ earlier c', x.After c c' → x.Follows c' (item earlier c') (readItem earlier)
      fun a c'' => P a ∧ c'.position < c''.position) :
    x.Follows c (w.commaSeparated item c) (Reader.commaSeparated readItem)
      fun as _ => ∀ a ∈ as, P a := by
  have hrounds := x.rounds_lt
  exact tokensLeft_follows fun n hn => itemsWithin_follows hi h.refl (by omega) hn

/-- Items up to a closing parenthesis, if there are any. -/
theorem listed_follows (h : x.Within c)
    (hi : ∀ earlier c', x.After c c' → x.Follows c' (item earlier c') (readItem earlier)
      fun a c'' => P a ∧ c'.position < c''.position) :
    x.Follows c
      ((do if ← w.sees (.symbol .rparen) then return [] else w.commaSeparated item) c)
      (do if ← Reader.sees (.symbol .rparen) then return [] else Reader.commaSeparated readItem)
      fun as _ => ∀ a ∈ as, P a :=
  ite_sees_follows h (fun _ => .pure h (List.forall_mem_nil _)) fun _ => commaSeparated_follows h hi

end

/-! ### Expressions -/

section

variable {nested : Walk Expr} {readNested : Reader Expr}

theorem primary_follows (h : x.Within c) :
    x.Follows c (w.primary c) Reader.primary fun _ c' => c.position < c'.position := by
  have hlt : c.position < c.next.position := Nat.lt_succ_self _
  refine .peek_bind h ?_
  cases hk : (x.current c).kind with
  | number | string | identifier =>
    exact .advance_bind h (by simp [hk]) fun hnext => .pure hnext hlt
  | keyword k =>
    cases k with
    | trueKw | falseKw => exact .advance_bind h (by simp [hk]) fun hnext => .pure hnext hlt
    | _ => exact unexpected_follows h
  | _ => exact unexpected_follows h

variable (hn : ∀ c', x.After c c' → c.position < c'.position →
  x.Follows c' (nested c') readNested fun _ c'' => c'.position < c''.position)

include hn

theorem operand_follows (h : x.Within c) :
    x.Follows c (w.operand nested c) (Reader.operand readNested)
      fun _ c' => c.position < c'.position := by
  refine .peek_bind h ?_
  cases hk : (x.current c).kind with
  | identifier name =>
    have hend : (x.current c).kind ≠ .endOfFile := by simp [hk]
    refine ite_seesAfter_follows h hend (fun hparen => ?_) fun _ => primary_follows h
    refine (identifier_follows h).bind ?_
    rintro callee _ h₁ ⟨-, rfl⟩
    refine .advance_bind h₁.within (by simp [hparen]) fun hnext => ?_
    have h₂ : x.After c c.next.next := h₁.trans ⟨Nat.le_succ _, hnext, rfl⟩
    have hlt : c.position < c.next.next.position := Nat.lt_add_of_pos_right Nat.two_pos
    have hargs : x.Follows c.next.next (w.arguments nested c.next.next)
        (Reader.arguments readNested) fun _ _ => True := by
      refine (listed_follows (P := fun _ => True) hnext fun _ c' h' => ?_).mono
        fun _ _ _ _ => trivial
      exact (hn c' (h₂.trans h') (Nat.lt_of_lt_of_le hlt h'.position_le)).mono
        fun _ _ _ hq => ⟨trivial, hq⟩
    refine hargs.bind fun args c₃ h₃ _ => ?_
    refine (expect_follows h₃.within (by simp)).bind fun close c₄ h₄ _ => ?_
    exact .pure h₄.within
      (Nat.lt_of_lt_of_le hlt (Nat.le_trans h₃.position_le h₄.position_le))
  | _ => exact primary_follows h

theorem chain_follows {level : Level} {operand : Walk Expr} {readOperand : Reader Expr}
    (ho : x.Follows c (operand c) readOperand fun _ c' => c.position < c'.position) :
    x.Follows c (w.chain level operand nested c) (Reader.chain level readOperand readNested)
      fun _ c' => c.position < c'.position := by
  refine ho.bind fun lhs c₁ h₁ hlt => .peek_bind h₁.within ?_
  cases hop : Operator.ofKind? (x.current c₁).kind with
  | none => exact .pure h₁.within hlt
  | some op =>
    have hend : (x.current c₁).kind ≠ .endOfFile := by
      intro hk
      rw [hk] at hop
      cases hop
    by_cases hl : op.level = level
    · simp only [if_pos hl]
      refine .advance_bind h₁.within hend fun hnext => ?_
      have h₂ : x.After c c₁.next := h₁.trans ⟨Nat.le_succ _, hnext, rfl⟩
      refine (hn _ h₂ (Nat.lt_succ_of_lt hlt)).bind fun rhs c₃ h₃ hlt₃ => ?_
      exact .pure h₃.within (Nat.lt_trans (Nat.lt_succ_of_lt hlt) hlt₃)
    · simp only [if_neg hl]
      exact .pure h₁.within hlt

theorem equality_follows (h : x.Within c) :
    x.Follows c (w.equality nested c) (Reader.equality readNested)
      fun _ c' => c.position < c'.position :=
  chain_follows hn (chain_follows hn (chain_follows hn (operand_follows hn h)))

end

/-- An expression is closed again on success and on error. -/
theorem attempt_leave {y : Walk Expr} {result : Except ParseError Expr}
    (h : (y c).result = some result) :
    (do
      let result ← y.attempt
      Walk.leave
      Walk.ofExcept result) c = ⟨some result, (y c).cursor.shallower, (y c).steps⟩ := by
  have hattempt : (y.attempt c).result = some (.ok result) := by
    rw [Walk.attempt, h]
    rfl
  rw [Walk.bind_of_ok hattempt, Walk.bind_of_ok (a := ()) rfl]
  cases result <;> simp [Walked.behind, Walk.attempt, Walk.leave, Walk.ofExcept, Walk.fail, pure]

theorem expression_of_deep {levels : Nat} (h : w.limited ∧ maxNesting < c.depth + 1) :
    w.expression (levels + 1) c =
      ((w.peek >>= fun t => Walk.fail (.nestingLimit t.span)) c.deeper).closed c := by
  rw [Walker.expression, Walk.bind_of_ok (a := c.depth + 1) rfl, if_pos h]
  rfl

theorem expression_of_open {levels : Nat} {result : Except ParseError Expr}
    (h : ¬ (w.limited ∧ maxNesting < c.depth + 1))
    (hr : (w.equality (w.expression levels) c.deeper).result = some result) :
    w.expression (levels + 1) c = (w.equality (w.expression levels) c.deeper).closed c := by
  rw [Walker.expression, Walk.bind_of_ok (a := c.depth + 1) rfl, if_neg h]
  change ((_ >>= _ : Walk Expr) c.deeper).behind _ = _
  rw [attempt_leave hr, Walked.closed, hr]
  rfl

section

variable {out : Walked Expr} {r r' : Reader Expr}

/-- Around what is read, an expression is entered and left again. What the reader makes of the whole
is told apart from the walk. -/
theorem Follows.closed_of_reads (h : x.Within c)
    (hinner : x.Follows c.deeper out r fun _ c' => c.position < c'.position)
    (hlimit : w.limited → w.cut (out.closed c) = out.result)
    (hreads : ∀ rest, some (r' (x.ahead rest c)) =
      (w.cut (out.closed c)).map (Except.map fun a => (a, x.ahead rest out.cursor))) :
    x.Follows c (out.closed c) r' fun _ c' => c.position < c'.position where
  after := ⟨hinner.after.position_le, hinner.after.within, congrArg (· - 1) hinner.after.depth_eq⟩
  finishes := hinner.finishes
  inside := List.forall_mem_cons.2 ⟨h, hinner.inside⟩
  post := hinner.post
  blames := hinner.blames
  limit := hlimit
  reads := hreads

/-- Within the limit, the expression around makes no difference. -/
theorem Follows.closed (h : x.Within c) (hd : ¬ maxNesting < c.depth + 1)
    (hinner : x.Follows c.deeper out r fun _ c' => c.position < c'.position) :
    x.Follows c (out.closed c) r fun _ c' => c.position < c'.position := by
  have hcut : w.cut (out.closed c) = w.cut out := (w.cut_closed c out).trans (if_neg hd)
  refine .closed_of_reads h hinner (fun hw => ?_) fun rest => ?_
  · rw [hcut, hinner.limit hw]
  · rw [hcut]
    exact hinner.reads rest

/-- Beyond the limit, the reader has no budget left and fails at once, even if the walk goes on. -/
theorem Follows.closed_of_deep (h : x.Within c) (hd : maxNesting < c.depth + 1)
    (hinner : x.Follows c.deeper out r fun _ c' => c.position < c'.position)
    (hw : w.limited → out.result = some (.error (.nestingLimit (x.current c).span))) :
    x.Follows c (out.closed c) (Reader.expression 0) fun _ c' => c.position < c'.position := by
  have hcut : w.cut (out.closed c) = some (.error (.nestingLimit (x.current c).span)) := by
    rw [cut_closed, if_pos hd, h.tokenAt]
  refine .closed_of_reads h hinner (fun hl => ?_) fun rest => ?_
  · rw [hcut, hw hl]
  · rw [hcut, Reader.expression, Reader.bind_of_eq_ok _ (Reader.peek_apply _), nextToken_ahead]
    rfl

end

/-- At each depth, the reader has the budget that is left there. -/
theorem expression_follows : ∀ {levels : Nat} {c : Cursor}, x.Within c →
    x.before.length < c.position + levels →
      x.Follows c (w.expression levels c) (Reader.expression (maxNesting - c.depth))
        fun _ c' => c.position < c'.position := by
  intro levels
  induction levels with
  | zero =>
    intro c h hl
    exact absurd h (Nat.not_le.2 hl)
  | succ levels ih =>
    intro c h hl
    have hinner : x.Follows c.deeper (w.equality (w.expression levels) c.deeper)
        (Reader.equality (Reader.expression (maxNesting - (c.depth + 1))))
        fun _ c' => c.position < c'.position := by
      refine equality_follows (fun c' h' hlt => ?_) h
      have hdepth : c'.depth = c.depth + 1 := h'.depth_eq
      have hpos : c.position < c'.position := hlt
      rw [← hdepth]
      exact ih h'.within (by omega)
    obtain ⟨result, hresult⟩ := hinner.finishes
    by_cases hd : maxNesting < c.depth + 1
    · rw [show maxNesting - c.depth = 0 by omega]
      by_cases hw : w.limited
      · rw [expression_of_deep ⟨hw, hd⟩]
        have hfail : x.Follows c.deeper
            ((w.peek >>= fun t => Walk.fail (.nestingLimit t.span)) c.deeper)
            (Reader.peek >>= fun t => throw (.nestingLimit t.span))
            fun (_ : Expr) c' => c.position < c'.position :=
          .peek_bind h (.fail h blames_current)
        refine hfail.closed_of_deep h hd fun _ => ?_
        rw [← h.peek_eq]
        rfl
      · rw [expression_of_open (fun hl => hw hl.1) hresult]
        exact hinner.closed_of_deep h hd fun hl => absurd hl hw
    · rw [expression_of_open (fun hl => hd hl.2) hresult,
        show maxNesting - c.depth = maxNesting - (c.depth + 1) + 1 by omega]
      exact hinner.closed h hd

/-! ### Statements -/

theorem statementEnd_follows (h : x.Within c) :
    x.Follows c (w.statementEnd c) Reader.statementEnd fun _ _ => True :=
  ite_sees_follows h (fun _ => .pure h trivial) fun _ =>
    (expect_follows h (by simp)).bind fun _ _ h₁ _ => .pure h₁.within trivial

theorem parameter_follows {function : String} {earlier : List Identifier} (h : x.Within c) :
    x.Follows c (w.parameter function earlier c) (Reader.parameter function earlier)
      fun _ c' => c.position < c'.position := by
  refine (identifier_follows h).bind ?_
  rintro p _ h₁ ⟨hp, rfl⟩
  split
  · exact .fail h₁.within hp
  · exact .pure h₁.within (Nat.lt_succ_self _)

theorem parameters_follows {function : String} (h : x.Within c) :
    x.Follows c (w.parameters function c) (Reader.parameters function) fun _ _ => True := by
  have hitem : ∀ earlier c', x.After c c' →
      x.Follows c' (w.parameter function earlier c') (Reader.parameter function earlier)
        fun _ c'' => True ∧ c'.position < c''.position :=
    fun _ _ h' => (parameter_follows h'.within).mono fun _ _ _ hlt => ⟨trivial, hlt⟩
  exact (listed_follows h hitem).mono fun _ _ _ _ => trivial

theorem functionStart_follows (h : x.Within c) :
    x.Follows c (w.functionStart c) Reader.functionStart fun _ _ => True :=
  ite_sees_follows h (fun _ => unexpected_follows h) fun _ => expect_follows h (by simp)

theorem bodyStart_follows (h : x.Within c) :
    x.Follows c (w.bodyStart c) Reader.bodyStart fun _ _ => True := by
  refine (accept_follows h (by simp)).bind fun b c₁ h₁ _ => ?_
  cases b with
  | true => exact .pure h₁.within trivial
  | false => exact unexpected_follows h₁.within

section

variable {expression : Walk Expr} {readExpression : Reader Expr} {depth : Nat}

variable (he : ∀ c, x.Within c → c.depth = depth →
  x.Follows c (expression c) readExpression fun _ c' => c.position < c'.position)

include he

theorem statement_follows (h : x.Within c) (hd : c.depth = depth) :
    x.Follows c (w.statement expression c) (Reader.statement readExpression)
      fun _ c' => c.position < c'.position := by
  -- an expression that is a statement of its own
  have halone : x.Follows c
      ((do
        let value ← expression
        return .expression value value.span : Walk Stmt) c)
      (do
        let value ← readExpression
        return .expression value value.span) fun _ c' => c.position < c'.position :=
    (he c h hd).bind fun value c₁ h₁ hlt => .pure h₁.within hlt
  refine .peek_bind h ?_
  cases hk : (x.current c).kind with
  | keyword k =>
    cases k with
    | returnKw =>
      refine .advance_bind h (by simp [hk]) fun hnext => ?_
      refine (he _ hnext hd).bind fun value c₁ h₁ hlt => .pure h₁.within ?_
      exact Nat.lt_trans (Nat.lt_succ_self _) hlt
    | _ => exact halone
  | identifier name =>
    have hend : (x.current c).kind ≠ .endOfFile := by simp [hk]
    refine ite_seesAfter_follows h hend (fun hdef => ?_) fun _ => halone
    refine (identifier_follows h).bind ?_
    rintro name _ h₁ ⟨-, rfl⟩
    refine .advance_bind h₁.within (by simp [hdef]) fun hnext => ?_
    refine (he _ hnext hd).bind fun value c₃ h₃ hlt => .pure h₃.within ?_
    exact Nat.lt_of_le_of_lt (Nat.le_add_right c.position 2) hlt
  | _ => exact halone

theorem statements_follows : ∀ {rounds n : Nat} {c : Cursor}, x.Within c → c.depth = depth →
    x.before.length < c.position + rounds → x.before.length < c.position + n →
      x.Follows c (w.statements expression rounds c) (Reader.statements readExpression n)
        fun _ _ => True := by
  intro rounds
  induction rounds with
  | zero =>
    intro n c h _ hr
    exact absurd h (Nat.not_le.2 hr)
  | succ rounds ih =>
    intro n c h hd hr hn
    cases n with
    | zero => exact absurd h (Nat.not_le.2 hn)
    | succ n =>
      have hrounds := x.rounds_lt
      refine (skipNewlines_follows h (by omega)).bind fun _ c₁ h₁ _ => ?_
      refine ite_sees_follows h₁.within (fun _ => .pure h₁.within trivial) fun _ => ?_
      refine ite_sees_follows h₁.within (fun _ => unexpected_follows h₁.within) fun _ => ?_
      refine (statement_follows he h₁.within (h₁.depth_eq.trans hd)).bind fun s c₂ h₂ hlt => ?_
      refine (statementEnd_follows h₂.within).bind fun _ c₃ h₃ _ => ?_
      have hafter := (h₁.trans h₂).trans h₃
      have hpos : c.position < c₃.position :=
        Nat.lt_of_le_of_lt h₁.position_le (Nat.lt_of_lt_of_le hlt h₃.position_le)
      refine (ih hafter.within (hafter.depth_eq.trans hd) (by omega) (by omega)).bind
        fun ss c₄ h₄ _ => .pure h₄.within trivial

/-- Functions are named by one of the tokens. -/
theorem scriptFunction_follows (h : x.Within c) (hd : c.depth = depth) :
    x.Follows c (w.scriptFunction expression c) (Reader.scriptFunction readExpression)
      fun f c' => x.Blames f.name.span ∧ c.position < c'.position := by
  have hrounds := x.rounds_lt
  refine (functionStart_follows h).bind fun start c₁ h₁ _ => ?_
  refine (identifier_follows h₁.within).bind ?_
  rintro name _ h₂ ⟨hname, rfl⟩
  refine (expect_follows h₂.within (by simp)).bind fun _ c₃ h₃ _ => ?_
  refine (parameters_follows h₃.within).bind fun params c₄ h₄ _ => ?_
  refine (expect_follows h₄.within (by simp)).bind fun _ c₅ h₅ _ => ?_
  refine (expect_follows h₅.within (by simp)).bind fun _ c₆ h₆ _ => ?_
  refine (bodyStart_follows h₆.within).bind fun _ c₇ h₇ _ => ?_
  have hafter := h₁.trans (h₂.trans (h₃.trans (h₄.trans (h₅.trans (h₆.trans h₇)))))
  refine tokensLeft_follows fun n hn => ?_
  refine (statements_follows he h₇.within (hafter.depth_eq.trans hd) (by omega) hn).bind
    fun body c₈ h₈ _ => ?_
  refine (expect_follows h₈.within (by simp)).bind fun close c₉ h₉ _ => .pure h₉.within ⟨hname, ?_⟩
  have := h₁.position_le
  have := (h₃.trans (h₄.trans (h₅.trans (h₆.trans (h₇.trans (h₈.trans h₉)))))).position_le
  simp only [Cursor.next] at this
  omega

end

/-! ### Imports and programs -/

/-- Imports are named by tokens. -/
theorem importLine_follows (h : x.Within c) (hk : (x.current c).kind = .keyword .importKw) :
    x.Follows c (w.importLine c) Reader.importLine
      fun line c' => (∀ i ∈ line, x.Blames i.name.span) ∧ c.position < c'.position := by
  have hnames : ∀ {c₂}, x.Within c₂ → x.Follows c₂ (w.commaSeparated (fun _ => w.identifier) c₂)
      (Reader.commaSeparated fun _ => Reader.identifier)
      fun names _ => ∀ name ∈ names, x.Blames name.span := by
    intro c₂ h₂
    refine commaSeparated_follows h₂ fun _ c' h' => (identifier_follows h'.within).mono ?_
    rintro _ _ - ⟨hname, rfl⟩
    exact ⟨hname, Nat.lt_succ_self _⟩
  refine .expected_bind h hk (by simp) fun h₁ => ?_
  refine (expect_follows h₁ (by simp)).bind fun _ c₂ h₂ _ => ?_
  refine (hnames h₂.within).bind fun names c₃ h₃ hnames => ?_
  refine (expect_follows h₃.within (by simp)).bind fun _ c₄ h₄ _ => ?_
  refine (expect_follows h₄.within (by simp)).bind fun _ c₅ h₅ _ => ?_
  refine (stringLiteral_follows h₅.within).bind fun s c₆ h₆ _ => ?_
  have hafter := h₂.trans (h₃.trans (h₄.trans (h₅.trans h₆)))
  refine .pure h₆.within ⟨List.forall_mem_map.2 hnames, ?_⟩
  exact Nat.lt_of_lt_of_le (Nat.lt_succ_self _) hafter.position_le

theorem define_follows {p : Program} {d : Definition} (h : x.Within c)
    (hd : x.Blames d.name.span) :
    x.Follows c (define p d c) (Reader.define p d) fun _ _ => True := by
  rw [Walker.define, Reader.define]
  cases p.get? d.name.name with
  | some earlier => exact .fail h hd
  | none => exact .pure h trivial

theorem foldlM_define_follows {line : List Import} (hline : ∀ i ∈ line, x.Blames i.name.span) :
    ∀ {p : Program} {c : Cursor}, x.Within c →
      x.Follows c (line.foldlM (fun p i => define p (.native i)) p c)
        (line.foldlM (fun p i => Reader.define p (.native i)) p) fun _ _ => True := by
  induction line with
  | nil => exact fun h => .pure h trivial
  | cons i line ih =>
    intro p c h
    obtain ⟨hi, hline⟩ := List.forall_mem_cons.1 hline
    rw [List.foldlM_cons, List.foldlM_cons]
    exact (define_follows (d := .native i) h hi).bind fun _ _ h₁ _ => ih hline h₁.within

theorem imports_follows : ∀ {rounds n : Nat} {p : Program} {c : Cursor}, x.Within c →
    x.before.length < c.position + rounds → x.before.length < c.position + n →
      x.Follows c (w.imports rounds p c) (Reader.imports n p) fun _ _ => True := by
  intro rounds
  induction rounds with
  | zero =>
    intro n p c h hr
    exact absurd h (Nat.not_le.2 hr)
  | succ rounds ih =>
    intro n p c h hr hn
    cases n with
    | zero => exact absurd h (Nat.not_le.2 hn)
    | succ n =>
      have hrounds := x.rounds_lt
      refine ite_sees_follows h (fun hk => ?_) fun _ => .pure h trivial
      refine (importLine_follows h hk).bind fun line c₁ h₁ hline => ?_
      refine (foldlM_define_follows hline.1 h₁.within).bind fun p c₂ h₂ _ => ?_
      refine (skipNewlines_follows h₂.within (by omega)).bind fun _ c₃ h₃ _ => ?_
      have hpos := Nat.lt_of_lt_of_le hline.2 (h₂.trans h₃).position_le
      exact ih h₃.within (by omega) (by omega)

theorem functions_follows {expression : Walk Expr} {readExpression : Reader Expr} {depth : Nat}
    (he : ∀ c, x.Within c → c.depth = depth →
      x.Follows c (expression c) readExpression fun _ c' => c.position < c'.position) :
    ∀ {rounds n : Nat} {p : Program} {c : Cursor}, x.Within c → c.depth = depth →
      x.before.length < c.position + rounds → x.before.length < c.position + n →
        x.Follows c (w.functions expression rounds p c) (Reader.functions readExpression n p)
          fun _ _ => True := by
  intro rounds
  induction rounds with
  | zero =>
    intro n p c h _ hr
    exact absurd h (Nat.not_le.2 hr)
  | succ rounds ih =>
    intro n p c h hd hr hn
    cases n with
    | zero => exact absurd h (Nat.not_le.2 hn)
    | succ n =>
      have hrounds := x.rounds_lt
      refine ite_sees_follows h (fun _ => .pure h trivial) fun _ => ?_
      refine (scriptFunction_follows he h hd).bind fun f c₁ h₁ hf => ?_
      refine (define_follows (d := .script f) h₁.within hf.1).bind fun p c₂ h₂ _ => ?_
      refine (skipNewlines_follows h₂.within (by omega)).bind fun _ c₃ h₃ _ => ?_
      have hafter := h₁.trans (h₂.trans h₃)
      have hpos := Nat.lt_of_lt_of_le hf.2 (h₂.trans h₃).position_le
      exact ih hafter.within (hafter.depth_eq.trans hd) (by omega) (by omega)

/-- **A walk goes along with the reader of programs.** -/
theorem program_follows (x : w.Extent) :
    x.Follows .start (w.program .start) (Reader.program (.expression maxNesting))
      fun _ _ => True := by
  have hrounds := x.rounds_lt
  have hstart : x.Within .start := Nat.zero_le _
  have he : ∀ c, x.Within c → c.depth = 0 → x.Follows c (w.expression w.rounds c)
      (Reader.expression maxNesting) fun _ c' => c.position < c'.position := by
    intro c h hd
    have hread := expression_follows h (show x.before.length < c.position + w.rounds by omega)
    rwa [hd] at hread
  refine (skipNewlines_follows hstart (by omega)).bind fun _ c₁ h₁ _ => ?_
  refine tokensLeft_follows fun n hn => ?_
  refine (imports_follows h₁.within (by omega) hn).bind fun p c₂ h₂ _ => ?_
  refine tokensLeft_follows fun n hn => ?_
  exact functions_follows he h₂.within (h₁.trans h₂).depth_eq (by omega) hn

end Walker.Extent

end Scriptlet
