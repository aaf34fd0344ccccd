import Scriptlet.Proofs.Grammar.Phrase

/-!
# What readers read

`Reads r follow phrase` says that the reader `r` accepts exactly the rows of `phrase`, as far as
the token after them is one that `follow` admits. The condition on the next token is needed because
readers look ahead: an identifier is read as a variable only where no parenthesis follows.

## Main results

* `Reader.bind_eq_ok_iff`, `map_eq_ok_iff` — a sequence of readers succeeds where both parts do
* `Reader.commaSeparated_reads` — items with commas between them, where an item may depend on the
  items before it
-/

namespace Scriptlet

variable {α β : Type}

@[simp] theorem nextToken_cons (t : Token) (ts : List Token) : nextToken (t :: ts) = t := rfl

/-- A row whose next token is not the end starts with that token. -/
theorem exists_cons_of_nextToken {ts : List Token} {kind : Token.Kind}
    (h : (nextToken ts).kind = kind) (hk : kind ≠ .endOfFile) :
    ∃ t us, ts = t :: us ∧ t.kind = kind := by
  cases ts with
  | nil => exact absurd h.symm hk
  | cons t us => exact ⟨t, us, rfl, h⟩

namespace Reader

/-! ### Readers as functions of the row -/

theorem bind_apply (m : Reader α) (f : α → Reader β) (ts : List Token) :
    (m >>= f) ts = match m ts with
      | .ok (a, rest) => f a rest
      | .error e => .error e := by
  cases h : m ts <;> simp [bind, StateT.bind, h, Except.bind]

theorem bind_of_eq_ok {m : Reader α} {a : α} {ts rest : List Token} (f : α → Reader β)
    (h : m ts = .ok (a, rest)) : (m >>= f) ts = f a rest := by
  rw [bind_apply, h]

/-- A sequence of readers succeeds if both parts do. -/
theorem bind_eq_ok_iff {m : Reader α} {f : α → Reader β} {ts rest : List Token} {b : β} :
    (m >>= f) ts = .ok (b, rest) ↔
      ∃ a mid, m ts = .ok (a, mid) ∧ f a mid = .ok (b, rest) := by
  rw [bind_apply]
  cases m ts with
  | error e => simp
  | ok p =>
    obtain ⟨a, mid⟩ := p
    constructor
    · intro h
      exact ⟨a, mid, rfl, h⟩
    · rintro ⟨_, _, ⟨⟩, h⟩
      exact h

theorem map_apply (f : α → β) (m : Reader α) (ts : List Token) :
    (f <$> m) ts = match m ts with
      | .ok (a, rest) => .ok (f a, rest)
      | .error e => .error e := by
  rw [map_eq_pure_bind, bind_apply]
  rfl

/-- What is made of a result is read as the result is. -/
theorem map_eq_ok_iff {f : α → β} {m : Reader α} {ts rest : List Token} {b : β} :
    (f <$> m) ts = .ok (b, rest) ↔ ∃ a, m ts = .ok (a, rest) ∧ f a = b := by
  rw [map_apply]
  cases m ts with
  | error e => simp
  | ok p =>
    obtain ⟨a, mid⟩ := p
    constructor
    · rintro ⟨⟩
      exact ⟨a, rfl, rfl⟩
    · rintro ⟨_, ⟨⟩, rfl⟩
      rfl

@[simp] theorem pure_apply (a : α) (ts : List Token) : (pure a : Reader α) ts = .ok (a, ts) := rfl

@[simp] theorem throw_apply (e : ParseError) (ts : List Token) :
    (throw e : Reader α) ts = .error e := rfl

@[simp] theorem peek_apply (ts : List Token) : peek ts = .ok (nextToken ts, ts) := rfl

@[simp] theorem advance_apply (ts : List Token) : advance ts = .ok (nextToken ts, ts.tail) := rfl

@[simp] theorem sees_apply (kind : Token.Kind) (ts : List Token) :
    sees kind ts = .ok (decide ((nextToken ts).kind = kind), ts) := rfl

@[simp] theorem seesAfter_apply (kind : Token.Kind) (ts : List Token) :
    seesAfter kind ts = .ok (decide ((nextToken ts.tail).kind = kind), ts) := rfl

@[simp] theorem tokensLeft_apply (ts : List Token) : tokensLeft ts = .ok (ts.length, ts) := rfl

@[simp] theorem unexpected_apply (expected : Expected) (hint : Option Hint) (ts : List Token) :
    (unexpected expected hint : Reader α) ts = .error (.unexpected expected (nextToken ts) hint) :=
  rfl

theorem accept_apply (kind : Token.Kind) (ts : List Token) :
    accept kind ts =
      if (nextToken ts).kind = kind then .ok (true, ts.tail) else .ok (false, ts) := by
  by_cases h : (nextToken ts).kind = kind <;> simp [accept, bind_apply, map_apply, h]

@[simp] theorem skipNewlines_apply (ts : List Token) :
    skipNewlines ts = .ok ((), ts.dropWhile fun t => t.kind = .newline) := rfl

/-! ### Accepting exactly the rows of a phrase -/

/-- `r` takes a row from the front exactly if it is a `phrase`, provided that `follow` admits the
token behind it. -/
structure Reads (r : Reader α) (follow : Token.Kind → Prop) (phrase : List Token → α → Prop) :
    Prop where
  /-- What is taken is a phrase. -/
  sound {ts rest : List Token} {a : α} (h : r ts = .ok (a, rest))
    (hf : follow (nextToken rest).kind) : ∃ us, ts = us ++ rest ∧ phrase us a
  /-- A phrase is taken. -/
  complete {us rest : List Token} {a : α} (h : phrase us a)
    (hf : follow (nextToken rest).kind) : r (us ++ rest) = .ok (a, rest)

/-- Any token may follow. -/
def anything (_ : Token.Kind) : Prop := True

theorem expect_reads {kind : Token.Kind} (hk : kind ≠ .endOfFile) :
    Reads (expect kind) anything fun us t => us = [t] ∧ t.kind = kind where
  sound {ts rest t} h _ := by
    by_cases hn : (nextToken ts).kind = kind
    · obtain ⟨u, us, rfl, hu⟩ := exists_cons_of_nextToken hn hk
      obtain ⟨rfl, rfl⟩ : u = t ∧ us = rest := by simpa [expect, bind_apply, hu] using h
      exact ⟨[u], rfl, rfl, hu⟩
    · simp [expect, bind_apply, hn] at h
  complete {us rest t} h _ := by
    obtain ⟨rfl, ht⟩ := h
    simp [expect, bind_apply, ht]

/-- The only token that is taken. -/
theorem expect_eq_ok {kind : Token.Kind} (hk : kind ≠ .endOfFile) {ts rest : List Token}
    {t : Token} (h : expect kind ts = .ok (t, rest)) : ts = t :: rest ∧ t.kind = kind := by
  obtain ⟨us, rfl, rfl, ht⟩ := (expect_reads hk).sound h trivial
  exact ⟨rfl, ht⟩

theorem expect_cons {kind : Token.Kind} {t : Token} (ht : t.kind = kind) (rest : List Token) :
    expect kind (t :: rest) = .ok (t, rest) := by
  simp [expect, bind_apply, ht]

theorem identifier_reads : Reads identifier anything Grammar.IsIdentifier where
  sound {ts rest name} h _ := by
    cases ts with
    | nil => simp [identifier, bind_apply, nextToken, Token.endOfFile] at h
    | cons t us =>
      obtain ⟨kind, lexeme, span⟩ := t
      cases kind <;> simp [identifier, bind_apply] at h
      obtain ⟨rfl, rfl⟩ := h
      exact ⟨_, rfl, lexeme, rfl⟩
  complete {us rest name} h _ := by
    obtain ⟨lexeme, rfl⟩ := h
    simp [identifier, bind_apply, map_apply]

theorem stringLiteral_reads : Reads stringLiteral anything fun us s =>
    ∃ t, us = [t] ∧ t.kind = .string s.1 ∧ t.span = s.2 where
  sound {ts rest s} h _ := by
    cases ts with
    | nil => simp [stringLiteral, bind_apply, nextToken, Token.endOfFile] at h
    | cons t us =>
      obtain ⟨kind, lexeme, span⟩ := t
      cases kind <;> simp [stringLiteral, bind_apply] at h
      obtain ⟨rfl, rfl⟩ := h
      exact ⟨_, rfl, _, rfl, rfl, rfl⟩
  complete {us rest s} h _ := by
    obtain ⟨t, rfl, ht, hs⟩ := h
    simp [stringLiteral, bind_apply, map_apply, ht, hs]

/-! ### Line ends -/

/-- What `skipNewlines` takes, and what it leaves. -/
theorem exists_newlines (ts : List Token) :
    ∃ us, ts = us ++ (ts.dropWhile fun t => t.kind = .newline) ∧ Grammar.Newlines us := by
  refine ⟨ts.takeWhile fun t => t.kind = .newline, List.takeWhile_append_dropWhile.symm, ?_⟩
  intro t ht
  simpa using List.all_eq_true.1 List.all_takeWhile t ht

theorem dropWhile_newlines {us rest : List Token} (h : Grammar.Newlines us)
    (hr : (nextToken rest).kind ≠ .newline) :
    ((us ++ rest).dropWhile fun t => t.kind = .newline) = rest := by
  rw [List.dropWhile_append_of_pos fun t ht => by simpa using h t ht]
  cases rest with
  | nil => rfl
  | cons t ts => exact List.dropWhile_cons_of_neg (by simpa using hr)

/-! ### Items with commas between them -/

/-- Whether each item is admitted after the items before it, which are given the latest first. -/
def Admitted (admits : List α → α → Prop) : List α → List α → Prop
  | _, [] => True
  | earlier, a :: as => admits earlier a ∧ Admitted admits (a :: earlier) as

variable {item : List α → Reader α} {follow : Token.Kind → Prop}
  {phrase : List Token → α → Prop} {admits : List α → α → Prop}

theorem itemsWithin_sound
    (hi : ∀ earlier, Reads (item earlier) follow fun us a => phrase us a ∧ admits earlier a)
    (hcomma : follow (.symbol .comma)) (hne : ∀ {us a}, phrase us a → us ≠ []) :
    ∀ {rounds : Nat} {earlier as : List α} {ts rest : List Token}, 0 < rounds →
      ts.length ≤ rounds → itemsWithin item rounds earlier ts = .ok (as, rest) →
        follow (nextToken rest).kind →
          ∃ us, ts = us ++ rest ∧ Grammar.CommaSeparated phrase us as ∧
            Admitted admits earlier as := by
  intro rounds
  induction rounds with
  | zero => intro _ _ _ _ h0; exact absurd h0 (Nat.lt_irrefl 0)
  | succ rounds ih =>
    intro earlier as ts rest _ hlen h hf
    obtain ⟨a, mid, ha, hmid⟩ := bind_eq_ok_iff.1 h
    rw [bind_apply, accept_apply] at hmid
    by_cases hk : (nextToken mid).kind = .symbol .comma
    · -- a comma, so there is another item and at least one round is left for it
      obtain ⟨comma, vs, rfl, hcm⟩ := exists_cons_of_nextToken hk (by simp)
      obtain ⟨us, rfl, hp, hadm⟩ := (hi earlier).sound ha (hk ▸ hcomma)
      rw [if_pos hk] at hmid
      obtain ⟨as', last, has, hlast⟩ := bind_eq_ok_iff.1 hmid
      obtain ⟨rfl, rfl⟩ : a :: as' = as ∧ last = rest := by simpa using hlast
      have hus : 0 < us.length := List.length_pos_iff.2 (hne hp)
      rw [List.length_append, List.length_cons] at hlen
      obtain ⟨ws, rfl, hws, hadm'⟩ := ih (by omega) (by simp; omega) has hf
      exact ⟨us ++ comma :: ws, by simp, .more hp hcm hws, hadm, hadm'⟩
    · rw [if_neg hk] at hmid
      obtain ⟨rfl, rfl⟩ : [a] = as ∧ mid = rest := by simpa using hmid
      obtain ⟨us, hus, hp, hadm⟩ := (hi earlier).sound ha hf
      exact ⟨us, hus, .one hp, hadm, trivial⟩

theorem itemsWithin_complete
    (hi : ∀ earlier, Reads (item earlier) follow fun us a => phrase us a ∧ admits earlier a)
    (hcomma : follow (.symbol .comma)) (hne : ∀ {us a}, phrase us a → us ≠ [])
    {us rest : List Token} {as : List α} (h : Grammar.CommaSeparated phrase us as)
    (hf : follow (nextToken rest).kind) (hc : (nextToken rest).kind ≠ .symbol .comma) :
    ∀ {rounds : Nat} {earlier : List α}, us.length ≤ rounds → Admitted admits earlier as →
      itemsWithin item rounds earlier (us ++ rest) = .ok (as, rest) := by
  induction h with
  | @one us a hp =>
    intro rounds earlier hlen hadm
    have hus : 0 < us.length := List.length_pos_iff.2 (hne hp)
    obtain ⟨n, rfl⟩ := Nat.exists_eq_add_of_lt (Nat.lt_of_lt_of_le hus hlen)
    rw [Nat.zero_add, itemsWithin, bind_of_eq_ok _ ((hi earlier).complete ⟨hp, hadm.1⟩ hf)]
    simp [bind_apply, accept_apply, hc]
  | @more us a comma vs as hp hk _ ih =>
    intro rounds earlier hlen hadm
    have hus : 0 < us.length := List.length_pos_iff.2 (hne hp)
    obtain ⟨n, rfl⟩ := Nat.exists_eq_add_of_lt (Nat.lt_of_lt_of_le hus
      (Nat.le_trans (by simp) hlen))
    have hfirst : item earlier (us ++ comma :: (vs ++ rest)) = .ok (a, comma :: (vs ++ rest)) :=
      (hi earlier).complete ⟨hp, hadm.1⟩ (by simpa [hk] using hcomma)
    have hrest : itemsWithin item n (a :: earlier) (vs ++ rest) = .ok (as, rest) :=
      ih (by simp at hlen; omega) hadm.2
    rw [Nat.zero_add, itemsWithin, List.append_assoc, List.cons_append, bind_of_eq_ok _ hfirst]
    simp [bind_apply, map_apply, accept_apply, hk, hrest]

/-- Items with commas between them, if no comma and no end follows. -/
theorem commaSeparated_reads
    (hi : ∀ earlier, Reads (item earlier) follow fun us a => phrase us a ∧ admits earlier a)
    (hcomma : follow (.symbol .comma)) (hne : ∀ {us a}, phrase us a → us ≠ []) :
    Reads (commaSeparated item)
      (fun k => follow k ∧ k ≠ .symbol .comma ∧ k ≠ .endOfFile)
      fun us as => Grammar.CommaSeparated phrase us as ∧ Admitted admits [] as where
  sound {ts rest as} h hf := by
    have hpos : 0 < ts.length := by
      cases ts with
      | nil =>
        obtain ⟨rfl, rfl⟩ : [] = as ∧ [] = rest := by
          simpa [commaSeparated, bind_apply, itemsWithin] using h
        exact absurd rfl hf.2.2
      | cons t ts => exact Nat.succ_pos _
    exact itemsWithin_sound hi hcomma hne hpos Nat.le.refl h hf.1
  complete {us rest as} h hf :=
    itemsWithin_complete hi hcomma hne h.1 hf.1 hf.2.1 (by simp) h.2

theorem admitted_true {earlier as : List α} : Admitted (fun _ _ => True) earlier as := by
  induction as generalizing earlier with
  | nil => trivial
  | cons a as ih => exact ⟨trivial, ih⟩

/-- What stands between parentheses, up to the closing one. -/
theorem listed_reads {starts : Token.Kind → Prop}
    (hi : ∀ earlier, Reads (item earlier) follow fun us a => phrase us a ∧ admits earlier a)
    (hcomma : follow (.symbol .comma)) (hclose : follow (.symbol .rparen))
    (hh : ∀ {us a}, phrase us a → ∃ t vs, us = t :: vs ∧ starts t.kind)
    (hs : ¬ starts (.symbol .rparen)) :
    Reads (do if ← sees (.symbol .rparen) then return [] else commaSeparated item)
      (· = .symbol .rparen)
      fun us as => Grammar.Listed phrase us as ∧ Admitted admits [] as := by
  have hc := commaSeparated_reads hi hcomma fun h => by
    obtain ⟨t, vs, rfl, -⟩ := hh h
    exact List.cons_ne_nil _ _
  have hf : ∀ {k : Token.Kind}, k = .symbol .rparen →
      follow k ∧ k ≠ .symbol .comma ∧ k ≠ .endOfFile := by
    rintro _ rfl
    exact ⟨hclose, by simp, by simp⟩
  constructor
  · intro ts rest as h hr
    by_cases hk : (nextToken ts).kind = .symbol .rparen
    · obtain ⟨rfl, rfl⟩ : [] = as ∧ ts = rest := by simpa [bind_apply, hk] using h
      exact ⟨[], rfl, .none, trivial⟩
    · have h' : commaSeparated item ts = .ok (as, rest) := by simpa [bind_apply, hk] using h
      obtain ⟨us, hus, hl, hadm⟩ := hc.sound h' (hf hr)
      exact ⟨us, hus, .some hl, hadm⟩
  · intro us rest as h hr
    obtain ⟨hl, hadm⟩ := h
    cases hl with
    | none => simp [bind_apply, hr]
    | some hl =>
      obtain ⟨t, vs, rfl, ht⟩ := hl.head hh
      have hk : t.kind ≠ .symbol .rparen := fun hk => hs (hk ▸ ht)
      have := hc.complete ⟨hl, hadm⟩ (hf hr)
      simpa [bind_apply, hk] using this

end Reader

end Scriptlet
