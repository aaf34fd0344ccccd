import Scriptlet.Proofs.Grammar.Cursor
import Scriptlet.Proofs.Grammar.Reading

/-!
# Walks and readers

A walk never gets past the first mark of the end of its row: whatever it takes stands before that
mark. So the tokens up to there are an invariant of the whole walk, its `Extent`, and at each moment
what is ahead of the cursor is a row that a reader could be given.

`Extent.Follows` is the contract between a walk and the reader that it goes along with. The walk
comes to an end, moves the cursor on within its extent and closes all expressions it opened. The
reader reads the same, unless the walk nests too deep: then it fails at the first token where the
walk does so. What stands behind the first mark of the end is free in this contract, so it is never
looked at.

## Main definitions

* `Walker.Extent` — the tokens of a row up to the first mark of its end
* `Walker.Extent.Follows` — the contract

## Main results

* `Walker.Extent.Follows.bind` — sequences keep the contract
-/

namespace Scriptlet

open Grammar

variable {α β : Type}

/-- Whether a step stays within the first `length` tokens and the one behind them. -/
def Cursor.Step.Inside (length : Nat) : Cursor.Step → Prop
  | look index => index ≤ length
  | take index => index < length
  | back position => 0 < position ∧ position ≤ length
  | enter index _ => index ≤ length

theorem firstDeep_append (steps more : List Cursor.Step) :
    firstDeep (steps ++ more) = (firstDeep steps).or (firstDeep more) := by
  rw [firstDeep, firstDeep, firstDeep, List.findSome?_append]

theorem firstDeep_enter (index depth : Nat) (steps : List Cursor.Step) :
    firstDeep (.enter index depth :: steps) =
      if maxNesting < depth then some index else firstDeep steps := by
  by_cases h : maxNesting < depth <;> simp [firstDeep, Cursor.Step.deep?, h]

namespace Walk

variable {y : Walk α} {f : α → Walk β} {c : Cursor} {a : α} {e : ParseError}

theorem bind_apply (y : Walk α) (f : α → Walk β) (c : Cursor) :
    (y >>= f) c = match (y c).result with
      | some (.ok a) => (f a (y c).cursor).behind (y c).steps
      | some (.error e) => ⟨some (.error e), (y c).cursor, (y c).steps⟩
      | none => ⟨none, (y c).cursor, (y c).steps⟩ := by
  change Walk.bind y f c = _
  rw [Walk.bind]
  obtain ⟨_ | _ | _, _, _⟩ := y c <;> rfl

theorem bind_of_ok (h : (y c).result = some (.ok a)) :
    (y >>= f) c = (f a (y c).cursor).behind (y c).steps := by
  rw [bind_apply, h]

theorem bind_of_error (h : (y c).result = some (.error e)) :
    (y >>= f) c = ⟨some (.error e), (y c).cursor, (y c).steps⟩ := by
  rw [bind_apply, h]

end Walk

namespace Walker

/-- What comes of a walk if it is given up where it first nests too deep. -/
def cut (w : Walker) (out : Walked α) : Option (Except ParseError α) :=
  match firstDeep out.steps with
  | some index => some (.error (.nestingLimit (w.tokenAt index).span))
  | none => out.result

variable {w : Walker} {out : Walked α}

theorem cut_of_none (h : firstDeep out.steps = none) : w.cut out = out.result := by
  rw [cut, h]

theorem cut_of_some {index : Nat} (h : firstDeep out.steps = some index) :
    w.cut out = some (.error (.nestingLimit (w.tokenAt index).span)) := by
  rw [cut, h]

theorem result_of_cut {a : α} (h : w.cut out = some (.ok a)) : out.result = some (.ok a) := by
  rw [cut] at h
  split at h
  · cases h
  · exact h

/-- A sequence is given up where its first part is, or else where its second part is. -/
theorem cut_bind (w : Walker) (y : Walk α) (f : α → Walk β) (c : Cursor) :
    w.cut ((y >>= f) c) = (w.cut (y c)).bind fun
      | .ok a => w.cut (f a (y c).cursor)
      | .error e => some (.error e) := by
  rw [Walk.bind_apply]
  obtain ⟨result, mid, steps⟩ := y c
  cases hd : firstDeep steps with
  | some index =>
    rcases result with _ | e | a <;> simp [cut, Walked.behind, firstDeep_append, hd]
  | none => rcases result with _ | e | a <;> simp [cut, Walked.behind, firstDeep_append, hd]

variable (w) in
/-- The tokens of a row up to the first mark of its end, and enough rounds to take them all. -/
structure Extent where
  before : List Token
  stop : Token
  after : List Token
  tokens_eq : w.tokens = before ++ stop :: after
  noEnd : NoEnd before
  isEnd : stop.kind = .endOfFile
  rounds_lt : before.length < w.rounds

namespace Extent

variable (x : w.Extent) {c c' c'' : Cursor} {rest : List Token}

/-- A cursor that is not past the first mark of the end. -/
def Within (c : Cursor) : Prop := c.position ≤ x.before.length

/-- What is ahead of a cursor, with any tokens behind the mark of the end. -/
def ahead (rest : List Token) (c : Cursor) : List Token :=
  x.before.drop c.position ++ x.stop :: rest

/-- The token at the cursor. -/
def current (c : Cursor) : Token := nextToken (x.ahead [] c)

/-- The span of a token that can be at the cursor. -/
def Blames (s : Span) : Prop := ∃ t ∈ x.before ++ [x.stop], s = t.span

@[simp] theorem nextToken_ahead : nextToken (x.ahead rest c) = x.current c := by
  rw [current, ahead, ahead]
  cases x.before.drop c.position <;> rfl

theorem exists_ahead : ∃ ts, x.ahead rest c = x.current c :: ts := by
  rw [current, ahead, ahead]
  cases x.before.drop c.position with
  | nil => exact ⟨rest, rfl⟩
  | cons t ts => exact ⟨ts ++ x.stop :: rest, rfl⟩

theorem ahead_of_lt (h : c.position < x.before.length) :
    x.ahead rest c = x.current c :: x.ahead rest c.next := by
  rw [current, ahead, ahead, List.drop_eq_getElem_cons h]
  rfl

theorem tail_ahead (h : c.position < x.before.length) :
    (x.ahead rest c).tail = x.ahead rest c.next := by
  rw [x.ahead_of_lt h, List.tail_cons]

theorem length_ahead :
    (x.ahead rest c).length = x.before.length - c.position + (rest.length + 1) := by
  simp [ahead]

variable {x}

theorem current_mem (x : w.Extent) : x.current c ∈ x.before ++ [x.stop] := by
  rw [current, ahead]
  cases h : x.before.drop c.position with
  | nil => exact List.mem_append_right _ (List.mem_singleton_self _)
  | cons t ts => exact List.mem_append_left _ (List.mem_of_mem_drop (h ▸ List.mem_cons_self))

theorem blames_current : x.Blames (x.current c).span := ⟨_, x.current_mem, rfl⟩

/-- Only at the end the cursor stands on a mark of the end. -/
theorem Within.lt (h : x.Within c) (hk : (x.current c).kind ≠ .endOfFile) :
    c.position < x.before.length := by
  refine Nat.lt_of_le_of_ne h fun heq => hk ?_
  rw [current, ahead, heq, List.drop_length]
  exact x.isEnd

theorem Within.next (h : x.Within c) (hk : (x.current c).kind ≠ .endOfFile) : x.Within c.next :=
  h.lt hk

theorem Within.tokenAt (h : x.Within c) : w.tokenAt c.position = x.current c := by
  rw [Walker.tokenAt, x.tokens_eq, List.drop_append_of_le_length h]
  exact x.nextToken_ahead

theorem Within.length_lt (h : x.Within c) : c.position < w.tokens.length := by
  rw [x.tokens_eq, List.length_append, List.length_cons]
  exact Nat.lt_of_le_of_lt h (by omega)

/-- The token at the cursor is looked up where the cursor stands. -/
theorem Within.peek_eq (h : x.Within c) :
    w.tokenAt (min c.position (w.tokens.length - 1)) = x.current c := by
  rw [Nat.min_eq_left (Nat.le_sub_one_of_lt h.length_lt), h.tokenAt]

variable (x) in
/-- A cursor may come behind another one: it is no further than the first mark of the end, and as
many expressions are open. -/
structure After (c c' : Cursor) : Prop where
  position_le : c.position ≤ c'.position
  within : x.Within c'
  depth_eq : c'.depth = c.depth

theorem Within.refl (h : x.Within c) : x.After c c := ⟨Nat.le.refl, h, rfl⟩

theorem Within.after_next (h : x.Within c) (hk : (x.current c).kind ≠ .endOfFile) :
    x.After c c.next := ⟨Nat.le_succ _, h.next hk, rfl⟩

theorem After.trans (h : x.After c c') (h' : x.After c' c'') : x.After c c'' :=
  ⟨Nat.le_trans h.position_le h'.position_le, h'.within, h'.depth_eq.trans h.depth_eq⟩

variable (x) in
/-- The contract between a walk that starts at `c` and a reader. -/
structure Follows (c : Cursor) (out : Walked α) (r : Reader α) (Q : α → Cursor → Prop) : Prop where
  after : x.After c out.cursor
  finishes : ∃ result, out.result = some result
  inside : ∀ s ∈ out.steps, s.Inside x.before.length
  post : ∀ a, out.result = some (.ok a) → Q a out.cursor
  blames : ∀ e, out.result = some (.error e) → x.Blames e.span
  limit : w.limited → w.cut out = out.result
  /-- What the reader reads does not depend on what stands behind the mark of the end. -/
  reads : ∀ rest, some (r (x.ahead rest c)) =
    (w.cut out).map (Except.map fun a => (a, x.ahead rest out.cursor))

variable {Q : α → Cursor → Prop} {Q' : β → Cursor → Prop} {r r' : Reader α} {g : α → Reader β}
  {y : Walk α} {f : α → Walk β} {out : Walked α}

namespace Follows

/-- A walk that only takes tokens, and its result. -/
theorem ok {a : α} {steps : List Cursor.Step} (h : x.After c c')
    (hs : ∀ s ∈ steps, s.Inside x.before.length ∧ s.deep? = none)
    (hr : ∀ rest, r (x.ahead rest c) = .ok (a, x.ahead rest c')) (hq : Q a c') :
    x.Follows c ⟨some (.ok a), c', steps⟩ r Q := by
  have hcut : w.cut ⟨some (.ok a), c', steps⟩ = some (.ok a) :=
    cut_of_none (List.findSome?_eq_none_iff.2 fun s hs' => (hs s hs').2)
  exact
    { after := h
      finishes := ⟨_, rfl⟩
      inside := fun s hs' => (hs s hs').1
      post := by
        rintro _ ⟨⟩
        exact hq
      blames := by
        rintro _ ⟨⟩
      limit := fun _ => hcut
      reads := fun rest => by
        rw [hcut, hr]
        rfl }

/-- A walk that fails without a step. -/
theorem error {e : ParseError} (h : x.Within c) (he : x.Blames e.span)
    (hr : ∀ rest, r (x.ahead rest c) = .error e) :
    x.Follows c ⟨some (.error e), c, []⟩ r Q where
  after := h.refl
  finishes := ⟨_, rfl⟩
  inside := List.forall_mem_nil _
  post := nofun
  blames := by
    rintro _ ⟨⟩
    exact he
  limit _ := rfl
  reads rest := by
    rw [hr]
    rfl

theorem pure {a : α} (h : x.Within c) (hq : Q a c) :
    x.Follows c ((Pure.pure a : Walk α) c) (Pure.pure a) Q :=
  ok h.refl (List.forall_mem_nil _) (fun _ => rfl) hq

theorem fail {e : ParseError} (h : x.Within c) (he : x.Blames e.span) :
    x.Follows c ((Walk.fail e : Walk α) c) (throw e) Q :=
  error h he fun _ => rfl

theorem mono {Q'' : α → Cursor → Prop} (h : x.Follows c out r Q)
    (hq : ∀ a c', x.After c c' → Q a c' → Q'' a c') : x.Follows c out r Q'' :=
  { h with post := fun a ha => hq a _ h.after (h.post a ha) }

/-- Readers that read the same from what is ahead. -/
theorem congr (h : x.Follows c out r Q)
    (hr : ∀ rest, r' (x.ahead rest c) = r (x.ahead rest c)) : x.Follows c out r' Q :=
  { h with reads := fun rest => by rw [hr, h.reads] }

theorem read_eq (h : x.Follows c out r Q) {result : Except ParseError α}
    (hc : w.cut out = some result) (rest : List Token) :
    r (x.ahead rest c) = result.map fun a => (a, x.ahead rest out.cursor) := by
  have hr := h.reads rest
  rw [hc] at hr
  exact Option.some.inj hr

theorem exists_cut (h : x.Follows c out r Q) : ∃ result, w.cut out = some result := by
  cases hc : w.cut out with
  | some result => exact ⟨result, rfl⟩
  | none =>
    have hr := h.reads []
    rw [hc] at hr
    cases hr

/-- **Sequences keep the contract.** -/
theorem bind (h : x.Follows c (y c) r Q)
    (hf : ∀ a c', x.After c c' → Q a c' → x.Follows c' (f a c') (g a) Q') :
    x.Follows c ((y >>= f) c) (r >>= g) Q' := by
  have hcut := Walker.cut_bind w y f c
  obtain ⟨result, hresult⟩ := h.finishes
  obtain ⟨given, hgiven⟩ := h.exists_cut
  cases result with
  | error e =>
    rw [Walk.bind_of_error hresult] at hcut ⊢
    exact
      { after := h.after
        finishes := ⟨_, rfl⟩
        inside := h.inside
        post := nofun
        blames := by
          rintro _ ⟨⟩
          exact h.blames e hresult
        limit := fun hw => by
          rw [hcut, h.limit hw, hresult]
          rfl
        reads := fun rest => by
          rw [hcut, Reader.bind_apply, h.read_eq hgiven, hgiven]
          cases given with
          | error e' => rfl
          | ok a => cases hresult.symm.trans (result_of_cut hgiven) }
  | ok a =>
    have hnext := hf a _ h.after (h.post a hresult)
    rw [Walk.bind_of_ok hresult] at hcut ⊢
    exact
      { after := h.after.trans hnext.after
        finishes := hnext.finishes
        inside := List.forall_mem_append.2 ⟨h.inside, hnext.inside⟩
        post := hnext.post
        blames := hnext.blames
        limit := fun hw => by
          rw [hcut, h.limit hw, hresult]
          exact hnext.limit hw
        reads := fun rest => by
          rw [hcut, Reader.bind_apply, h.read_eq hgiven, hgiven]
          cases given with
          | error e' => rfl
          | ok a' =>
            obtain rfl : a = a' := by
              simpa [hresult] using result_of_cut hgiven
            exact hnext.reads rest }

end Follows

/-! ### Tokens -/

theorem peek_follows (h : x.Within c) :
    x.Follows c (w.peek c) Reader.peek fun t c' => x.current c = t ∧ c = c' := by
  rw [Walker.peek, h.peek_eq]
  refine .ok h.refl ?_ (fun rest => by simp) ⟨rfl, rfl⟩
  exact List.forall_mem_singleton.2 ⟨h, rfl⟩

/-- What is done with the next token, which stays. -/
theorem Follows.peek_bind {f : Token → Walk α} {g : Token → Reader α} (h : x.Within c)
    (hf : x.Follows c (f (x.current c) c) (g (x.current c)) Q) :
    x.Follows c ((w.peek >>= f) c) (Reader.peek >>= g) Q := by
  refine (peek_follows h).bind ?_
  rintro _ _ - ⟨rfl, rfl⟩
  exact hf

theorem moveOn_follows (h : x.Within c) (hk : (x.current c).kind ≠ .endOfFile) :
    x.Follows c (w.moveOn c) (modify List.tail) fun _ c' => c.next = c' := by
  rw [Walker.moveOn, if_pos h.length_lt]
  refine .ok (h.after_next hk) ?_ (fun rest => ?_) rfl
  · exact List.forall_mem_singleton.2 ⟨h.lt hk, rfl⟩
  · rw [← x.tail_ahead (h.lt hk)]
    rfl

theorem advance_follows (h : x.Within c) (hk : (x.current c).kind ≠ .endOfFile) :
    x.Follows c (w.advance c) Reader.advance fun t c' => x.current c = t ∧ c.next = c' := by
  refine .peek_bind h ((moveOn_follows h hk).bind ?_)
  rintro - _ ha rfl
  exact .pure ha.within ⟨rfl, rfl⟩

/-- What is done with the next token, once it is taken. -/
theorem Follows.advance_bind {f : Token → Walk α} {g : Token → Reader α} (h : x.Within c)
    (hk : (x.current c).kind ≠ .endOfFile)
    (hf : x.Within c.next → x.Follows c.next (f (x.current c) c.next) (g (x.current c)) Q) :
    x.Follows c ((w.advance >>= f) c) (Reader.advance >>= g) Q := by
  refine (advance_follows h hk).bind ?_
  rintro _ _ ha ⟨rfl, rfl⟩
  exact hf ha.within

theorem unexpected_follows {expected : Expected} {hint : Option Hint} (h : x.Within c) :
    x.Follows c (w.unexpected expected hint c) (Reader.unexpected expected hint) Q :=
  .peek_bind h (.fail h blames_current)

section

variable {kind : Token.Kind} {yes no : Walk α} {r' : Reader α}

/-- Walk and reader make the same choice by the next token. -/
theorem ite_sees_follows (h : x.Within c)
    (hyes : (x.current c).kind = kind → x.Follows c (yes c) r Q)
    (hno : (x.current c).kind ≠ kind → x.Follows c (no c) r' Q) :
    x.Follows c ((do if ← w.sees kind then yes else no) c)
      (do if ← Reader.sees kind then r else r') Q := by
  have hsees : x.Follows c (w.sees kind c) (Reader.sees kind) fun b c' =>
      decide ((x.current c).kind = kind) = b ∧ c = c' := .peek_bind h (.pure h ⟨rfl, rfl⟩)
  refine hsees.bind ?_
  rintro _ _ - ⟨rfl, rfl⟩
  by_cases hk : (x.current c).kind = kind
  · simpa only [hk, decide_true, if_true] using hyes hk
  · simpa only [hk, decide_false, Bool.false_eq_true, if_false] using hno hk

/-- Walk and reader make the same choice by the token after the next, which there is unless the
next one marks the end. -/
theorem ite_seesAfter_follows (h : x.Within c) (hk : (x.current c).kind ≠ .endOfFile)
    (hyes : (x.current c.next).kind = kind → x.Follows c (yes c) r Q)
    (hno : (x.current c.next).kind ≠ kind → x.Follows c (no c) r' Q) :
    x.Follows c ((do if ← w.seesAfter kind then yes else no) c)
      (do if ← Reader.seesAfter kind then r else r') Q := by
  have hnext := h.next hk
  have hsees : x.Follows c (w.seesAfter kind c) (Reader.seesAfter kind) fun b c' =>
      decide ((x.current c.next).kind = kind) = b ∧ c = c' := by
    rw [Walker.seesAfter, show w.tokenAt (c.position + 1) = x.current c.next from hnext.tokenAt]
    refine .ok h.refl ?_ (fun rest => ?_) ⟨rfl, rfl⟩
    · exact List.forall_mem_singleton.2 ⟨hnext, rfl⟩
    · rw [Reader.seesAfter_apply, x.tail_ahead (h.lt hk), nextToken_ahead]
  refine hsees.bind ?_
  rintro _ _ - ⟨rfl, rfl⟩
  by_cases hk : (x.current c.next).kind = kind
  · simpa only [hk, decide_true, if_true] using hyes hk
  · simpa only [hk, decide_false, Bool.false_eq_true, if_false] using hno hk

theorem accept_follows (h : x.Within c) (hkind : kind ≠ .endOfFile) :
    x.Follows c (w.accept kind c) (Reader.accept kind) fun _ _ => True :=
  ite_sees_follows h
    (fun hk => .advance_bind h (hk ▸ hkind) fun hnext => .pure hnext trivial)
    fun _ => .pure h trivial

theorem expect_follows (h : x.Within c) (hkind : kind ≠ .endOfFile) :
    x.Follows c (w.expect kind c) (Reader.expect kind) fun _ _ => True :=
  ite_sees_follows h
    (fun hk => (advance_follows h (hk ▸ hkind)).mono fun _ _ _ _ => trivial)
    fun _ => unexpected_follows h

end

/-- A token that was looked at is taken without another look, where the reader asks for it. -/
theorem Follows.expected_bind {kind : Token.Kind} {f : Token → Walk α} {g : Token → Reader α}
    (h : x.Within c) (hk : (x.current c).kind = kind) (hkind : kind ≠ .endOfFile)
    (hf : x.Within c.next → x.Follows c.next (f (x.current c) c.next) (g (x.current c)) Q) :
    x.Follows c ((w.advance >>= f) c) (Reader.expect kind >>= g) Q := by
  refine (advance_bind h (hk ▸ hkind) hf).congr fun rest => ?_
  have hexpect : Reader.expect kind (x.ahead rest c) = Reader.advance (x.ahead rest c) := by
    rw [Reader.expect, Reader.bind_of_eq_ok _ (Reader.sees_apply _ _), nextToken_ahead,
      if_pos (decide_eq_true hk)]
  rw [Reader.bind_apply, Reader.bind_apply, hexpect]

theorem identifier_follows (h : x.Within c) :
    x.Follows c (w.identifier c) Reader.identifier fun name c' =>
      x.Blames name.span ∧ c.next = c' := by
  refine .peek_bind h ?_
  cases hk : (x.current c).kind with
  | identifier name =>
    exact .advance_bind h (by simp [hk]) fun hnext => .pure hnext ⟨blames_current, rfl⟩
  | _ => exact unexpected_follows h

/-- Behind a token that was taken, its span is found again. -/
theorem Follows.previousSpan_bind {f : Span → Walk α} (h : x.Within c)
    (hk : (x.current c).kind ≠ .endOfFile)
    (hf : x.Follows c.next (f (x.current c).span c.next) r Q) :
    x.Follows c.next ((w.previousSpan >>= f) c.next) r Q := by
  have hspan : x.Follows c.next (w.previousSpan c.next) (Pure.pure (x.current c).span)
      fun s c' => (x.current c).span = s ∧ c.next = c' := by
    rw [← h.tokenAt]
    refine .ok (h.next hk).refl ?_ (fun _ => rfl) ⟨rfl, rfl⟩
    exact List.forall_mem_singleton.2 ⟨⟨Nat.succ_pos _, h.next hk⟩, rfl⟩
  have hbind : x.Follows c.next ((w.previousSpan >>= f) c.next)
      (Pure.pure (x.current c).span >>= fun _ => r) Q := by
    refine hspan.bind ?_
    rintro _ _ - ⟨rfl, rfl⟩
    exact hf
  exact hbind.congr fun _ => rfl

theorem stringLiteral_follows (h : x.Within c) :
    x.Follows c (w.stringLiteral c) Reader.stringLiteral fun _ _ => True := by
  refine .peek_bind h ?_
  cases hk : (x.current c).kind with
  | string s =>
    have hend : (x.current c).kind ≠ .endOfFile := by simp [hk]
    exact .advance_bind h hend fun hnext => .previousSpan_bind h hend (.pure hnext trivial)
  | _ => exact unexpected_follows h

/-- Line ends, one by one. -/
theorem skipNewlines_ahead :
    Reader.skipNewlines (x.ahead rest c) =
      (do if ← Reader.sees .newline then
            let _ ← Reader.advance
            Reader.skipNewlines
          else return ()) (x.ahead rest c) := by
  rw [Reader.bind_of_eq_ok _ (Reader.sees_apply _ _), nextToken_ahead, Reader.skipNewlines_apply]
  obtain ⟨ts, hts⟩ : ∃ ts, x.ahead rest c = x.current c :: ts := x.exists_ahead
  rw [hts]
  by_cases hk : (x.current c).kind = .newline
  · rw [if_pos (decide_eq_true hk), List.dropWhile_cons_of_pos (by simpa using hk),
      Reader.bind_of_eq_ok _ (Reader.advance_apply _), Reader.skipNewlines_apply, List.tail_cons]
  · rw [if_neg (by simpa using hk), List.dropWhile_cons_of_neg (by simpa using hk)]
    rfl

theorem skipNewlines_follows : ∀ {rounds : Nat} {c : Cursor}, x.Within c →
    x.before.length < c.position + rounds →
      x.Follows c (w.skipNewlines rounds c) Reader.skipNewlines fun _ _ => True := by
  intro rounds
  induction rounds with
  | zero =>
    intro c h hr
    exact absurd h (Nat.not_le.2 hr)
  | succ rounds ih =>
    intro c h hr
    refine .congr (ite_sees_follows h (fun hk => ?_) fun _ => .pure h trivial)
      fun _ => skipNewlines_ahead
    refine .advance_bind h (by simp [hk]) fun hnext => ih hnext ?_
    simp only [Cursor.next]
    omega

theorem tokensLeft_follows {read : Nat → Reader α}
    (hr : ∀ rounds, x.before.length < c.position + rounds → x.Follows c out (read rounds) Q) :
    x.Follows c out (Reader.tokensLeft >>= read) Q :=
  have hlt : ∀ c : Cursor, x.before.length < c.position + (x.before.length + 1) := fun c => by omega
  { hr (x.before.length + 1) (hlt c) with
    reads := fun rest => by
      rw [Reader.bind_of_eq_ok _ (Reader.tokensLeft_apply _)]
      exact (hr _ (by rw [length_ahead]; omega)).reads rest }

end Extent

end Walker

end Scriptlet
