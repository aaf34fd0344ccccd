import Scriptlet.Proofs.Decimal.Positional
import Scriptlet.Proofs.Expr.Parts
import Scriptlet.Proofs.Program.Spanless
import Scriptlet.Proofs.Text.Quoted

/-!
# Texts of expressions

The text of an expression shows its tree: which node it is can be seen in the first character, or
in the one behind a word, and every part says where it ends, if it is known what may stand behind
it. That is a blank, a comma or a closing parenthesis, and these continue neither words nor
numbers.

It takes a little care of what the expression is made of. Numbers have to be finite, as `inf` is a
name as well, and names must be told from reserved words.

## Main definitions

* `IsName`, `Expr.Legible` — what names are like, and nodes whose text shows what they are
* `Expr.lead` — what the text of an expression starts with

## Main results

* `Expr.text_append_inj` — an expression can be told from its text and what stands behind it
* `Expr.text_eq_iff` — so its text says what it is, but not where it stands
-/

namespace Scriptlet

/-- A word that is no reserved word. -/
def IsName (name : String) : Prop :=
  ∃ c cs, name.toList = c :: cs ∧ ¬ c.isDigit ∧ (∀ d ∈ c :: cs, isWordChar d) ∧
    ∀ k : Keyword, k.text ≠ name

/-- The rest of a text is empty, or goes on as it may behind an expression. -/
def Stops (cs : List Char) : Prop := ∀ c ∈ cs.head?, c = ' ' ∨ c = ',' ∨ c = ')'

theorem stops_nil : Stops [] := by simp [Stops]

theorem stops_cons {c : Char} (h : c = ' ' ∨ c = ',' ∨ c = ')') (cs : List Char) :
    Stops (c :: cs) := by
  rintro _ ⟨⟩
  exact h

theorem Stops.not_isWordChar {cs : List Char} (h : Stops cs) :
    ∀ c ∈ cs.head?, ¬ isWordChar c := by
  intro c hc
  rcases h c hc with rfl | rfl | rfl <;> decide

/-- The characters of numbers. -/
def isNumberChar (c : Char) : Bool := c.isDigit || c = '.' || c = '-'

theorem Stops.not_isNumberChar {cs : List Char} (h : Stops cs) :
    ∀ c ∈ cs.head?, ¬ isNumberChar c := by
  intro c hc
  rcases h c hc with rfl | rfl | rfl <;> decide

namespace Operator

theorem space_not_mem_text (op : Operator) : ' ' ∉ op.text.toList := by cases op <;> decide

theorem text_inj {op op' : Operator} (h : op.text.toList = op'.text.toList) : op = op' := by
  have hall : ∀ op op' : Operator, op.text.toList = op'.text.toList → op = op' := by
    rintro (_ | _ | _ | _ | _ | _) (_ | _ | _ | _ | _ | _) <;> decide
  exact hall op op' h

end Operator

/-- What the text of an expression starts with. -/
inductive Lead
  | parenthesis
  | digit
  | quote
  | letter
deriving DecidableEq

/-- What a character may be the start of. -/
def Lead.of? (c : Char) : Option Lead :=
  if c = '(' then some parenthesis
  else if c = '"' then some quote
  else if c.isDigit || c = '-' then some digit
  else if isWordChar c then some letter
  else none

namespace Expr

/-- The text of a node shows what it is: its level is that of its operator, its name is one, and
its number is finite. -/
def Legible : Expr → Prop
  | binary level _ op _ _ _ => level = op.level
  | call callee _ _ => IsName callee.name
  | number x _ => x.isFinite
  | bool _ _ | string _ _ => True
  | identifier name _ => IsName name

/-- What the text of an expression starts with. -/
def lead : Expr → Lead
  | binary .. => .parenthesis
  | number .. => .digit
  | string .. => .quote
  | call .. | bool .. | identifier .. => .letter

/-! ### The characters of a text -/

/-- The text of the arguments behind the first one. -/
def moreText : List Expr → List Char
  | [] => []
  | e :: es => ',' :: ' ' :: (e.text.toList ++ moreText es)

/-- The text of the arguments of a call. -/
def argumentsText : List Expr → List Char
  | [] => []
  | e :: es => e.text.toList ++ moreText es

theorem toList_intercalate_texts (es : List Expr) :
    (String.intercalate ", " (texts es)).toList = argumentsText es := by
  rw [String.toList_intercalate]
  induction es with
  | nil => rfl
  | cons e es ih =>
    cases es with
    | nil => simp [texts, argumentsText, moreText]
    | cons d es => simpa [texts, argumentsText, moreText] using ih

theorem toList_text_binary (level : Level) (lhs : Expr) (op : Operator) (opSpan : Span) (rhs : Expr)
    (span : Span) : (binary level lhs op opSpan rhs span).text.toList =
      '(' :: (lhs.text.toList ++ ' ' :: (op.text.toList ++ ' ' :: (rhs.text.toList ++ [')']))) := by
  simp [text]

theorem toList_text_call (callee : Identifier) (args : List Expr) (span : Span) :
    (call callee args span).text.toList =
      callee.name.toList ++ '(' :: (argumentsText args ++ [')']) := by
  simp [text, ← toList_intercalate_texts]

/-! ### Telling nodes apart -/

/-- The characters of a number's text. -/
theorem isNumberChar_of_mem_numberText {x : Float} (hx : x.isFinite) :
    ∀ c ∈ (numberText x).toList, isNumberChar c := by
  obtain ⟨negative, m, e, -, -, htext⟩ := exists_numberText hx
  rw [htext]
  refine List.forall_mem_append.2 ⟨fun c hc => ?_, fun c hc => ?_⟩
  · cases negative
    · exact absurd hc List.not_mem_nil
    · rw [List.mem_singleton.1 hc]
      rfl
  · obtain h | rfl := (isMagnitude_magnitude m e).forall_mem c hc
    · simp [isNumberChar, h]
    · rfl

/-- **The first character shows what kind of node it is.** -/
theorem Legible.exists_lead {e : Expr} (h : e.Legible) :
    ∃ c cs, e.text.toList = c :: cs ∧ Lead.of? c = some e.lead := by
  have hname : ∀ {name : String} (cs : List Char), IsName name →
      ∃ c ds, name.toList ++ cs = c :: ds ∧ Lead.of? c = some .letter := by
    rintro name cs ⟨c, ds, hcons, hdigit, hword, -⟩
    have hc := hword c List.mem_cons_self
    have hne : ∀ d, ¬ isWordChar d → c ≠ d := by
      rintro d hd rfl
      exact hd hc
    refine ⟨c, ds ++ cs, by rw [hcons]; rfl, ?_⟩
    simp [Lead.of?, hne '(' (by decide), hne '"' (by decide), hne '-' (by decide), hdigit, hc]
  cases e with
  | binary => exact ⟨_, _, toList_text_binary .., rfl⟩
  | call =>
    rw [toList_text_call]
    exact hname _ h
  | identifier =>
    rw [← List.append_nil (text _).toList]
    exact hname _ h
  | bool b _ =>
    cases b
    · exact ⟨'f', "alse".toList, by simp [text], rfl⟩
    · exact ⟨'t', "rue".toList, by simp [text], rfl⟩
  | string => exact ⟨_, _, String.toList_ofList, rfl⟩
  | number x _ =>
    obtain ⟨negative, m, e, -, -, htext⟩ := exists_numberText h
    obtain ⟨c, cs, hcons, hdigit⟩ := (isMagnitude_magnitude m e).exists_cons
    cases negative
    · refine ⟨c, cs, htext.trans hcons, ?_⟩
      have hne : ∀ d : Char, ¬ d.isDigit → c ≠ d := by
        rintro d hd rfl
        exact hd hdigit
      simp [Lead.of?, hne '(' (by decide), hne '"' (by decide), hdigit, lead]
    · exact ⟨'-', _, htext, rfl⟩

theorem Legible.lead_eq {e d : Expr} (he : e.Legible) (hd : d.Legible) {r s : List Char}
    (h : e.text.toList ++ r = d.text.toList ++ s) : e.lead = d.lead := by
  obtain ⟨c, cs, hcons, hlead⟩ := he.exists_lead
  obtain ⟨c', cs', hcons', hlead'⟩ := hd.exists_lead
  rw [hcons, hcons'] at h
  rw [(List.cons.inj h).1, hlead'] at hlead
  exact (Option.some.inj hlead).symm

theorem stops_moreText (es : List Expr) (r : List Char) : Stops (moreText es ++ ')' :: r) := by
  cases es with
  | nil => exact stops_cons (.inr (.inr rfl)) r
  | cons => exact stops_cons (.inr (.inl rfl)) _

/-- No list of arguments is shown like the closing parenthesis. -/
theorem argumentsText_cons_append_ne {e : Expr} (he : e.Legible) (es : List Expr)
    (r s : List Char) : argumentsText (e :: es) ++ r ≠ ')' :: s := by
  obtain ⟨c, cs, hcons, hlead⟩ := he.exists_lead
  rw [argumentsText, hcons]
  intro h
  rw [(List.cons.inj h).1] at hlead
  exact absurd hlead (by simp [Lead.of?, isWordChar])

/-- Lists of arguments that are shown alike are still shown alike behind another argument. -/
theorem moreText_of_argumentsText {es ds : List Expr} {r s : List Char} (he : ∀ e ∈ es, e.Legible)
    (hd : ∀ d ∈ ds, d.Legible)
    (h : argumentsText es ++ ')' :: r = argumentsText ds ++ ')' :: s) :
    moreText es ++ ')' :: r = moreText ds ++ ')' :: s := by
  cases es with
  | nil =>
    cases ds with
    | nil => exact h
    | cons d ds =>
      exact absurd h.symm (argumentsText_cons_append_ne (hd d List.mem_cons_self) ds _ _)
  | cons e es =>
    cases ds with
    | nil => exact absurd h (argumentsText_cons_append_ne (he e List.mem_cons_self) es _ _)
    | cons d ds => exact congrArg (',' :: ' ' :: ·) h

/-! ### Words -/

/-- The reserved word of a truth value. -/
def boolKeyword (b : Bool) : Keyword := if b then .trueKw else .falseKw

theorem boolKeyword_text_inj : ∀ {b b' : Bool},
    (boolKeyword b).text = (boolKeyword b').text → b = b' := by
  decide

/-- The word that a text starts with, if the node is shown by a word. -/
def word : Expr → List Char
  | call callee _ _ => callee.name.toList
  | bool b _ => (boolKeyword b).text.toList
  | identifier name _ => name.toList
  | binary .. | number .. | string .. => []

/-- What stands behind the word that a text starts with. -/
def behindWord : Expr → List Char
  | call _ args _ => '(' :: (argumentsText args ++ [')'])
  | binary .. | number .. | string .. | bool .. | identifier .. => []

theorem toList_text_of_letter {e : Expr} (h : e.lead = .letter) :
    e.text.toList = e.word ++ e.behindWord := by
  cases e with
  | binary | number | string => cases h
  | call => exact toList_text_call ..
  | identifier => exact (List.append_nil _).symm
  | bool b => cases b <;> simp [text, word, behindWord, boolKeyword, Keyword.text]

theorem Legible.isWordChar_of_mem_word {e : Expr} (h : e.Legible) : ∀ c ∈ e.word, isWordChar c := by
  have hname : ∀ {name : String}, IsName name → ∀ c ∈ name.toList, isWordChar c := by
    rintro name ⟨c, cs, hcons, -, hword, -⟩
    rw [hcons]
    exact hword
  cases e with
  | binary | number | string => exact fun c hc => absurd hc List.not_mem_nil
  | call | identifier => exact hname h
  | bool b => cases b <;> simp [word, boolKeyword, Keyword.text] <;> decide

/-- Nodes that are shown by words, with the same text, have the same word. -/
theorem word_append_inj {e d : Expr} {r s : List Char} (he : e.Legible) (hd : d.Legible)
    (hle : e.lead = .letter) (hld : d.lead = .letter) (hr : Stops r) (hs : Stops s)
    (h : e.text.toList ++ r = d.text.toList ++ s) :
    e.word = d.word ∧ e.behindWord ++ r = d.behindWord ++ s := by
  have hbehind : ∀ {e : Expr} {r : List Char}, Stops r →
      ∀ c ∈ (e.behindWord ++ r).head?, ¬ isWordChar c := by
    intro e r hr
    cases e with
    | call => rintro _ ⟨⟩; decide
    | binary | number | string | bool | identifier => exact hr.not_isWordChar
  rw [toList_text_of_letter hle, toList_text_of_letter hld, List.append_assoc,
    List.append_assoc] at h
  exact append_run_inj he.isWordChar_of_mem_word hd.isWordChar_of_mem_word (hbehind hr) (hbehind hs)
    h

/-! ### Telling expressions apart -/

/-- Nodes that are shown by words, with the same text, are the same if the arguments of calls can be
told apart. -/
theorem spanless_eq_of_letter {e d : Expr} {r s : List Char} (he : e.Legible) (hd : d.Legible)
    (hle : e.lead = .letter) (hld : d.lead = .letter) (hr : Stops r) (hs : Stops s)
    (h : e.text.toList ++ r = d.text.toList ++ s)
    (hargs : ∀ callee args span callee' args' span', e = call callee args span →
      d = call callee' args' span' →
      argumentsText args ++ ')' :: r = argumentsText args' ++ ')' :: s →
      spanlessAll args = spanlessAll args' ∧ r = s) :
    e.spanless = d.spanless ∧ r = s := by
  obtain ⟨hword, hbehind⟩ := word_append_inj he hd hle hld hr hs h
  have hreserved : ∀ {name : String} {b : Bool}, IsName name →
      name.toList ≠ (boolKeyword b).text.toList := by
    rintro name b ⟨-, -, -, -, -, hkeyword⟩ heq
    exact hkeyword _ (String.toList_inj.1 heq).symm
  have hopen : ∀ {cs r : List Char}, Stops r → '(' :: cs ≠ r := by
    rintro cs _ hr rfl
    exact absurd (hr '(' rfl) (by decide)
  cases e with
  | binary | number | string => cases hle
  | call callee args span =>
    cases d with
    | binary | number | string => cases hld
    | bool => exact absurd hword (hreserved he)
    | identifier => exact absurd hbehind (hopen hs)
    | call callee' args' span' =>
      simp only [behindWord, List.cons_append, List.append_assoc, List.nil_append, List.cons.injEq,
        true_and] at hbehind
      obtain ⟨hall, hrest⟩ := hargs _ _ _ _ _ _ rfl rfl hbehind
      refine ⟨?_, hrest⟩
      rw [spanless, spanless, hall, Identifier.spanless, Identifier.spanless,
        String.toList_inj.1 hword]
  | bool b =>
    cases d with
    | binary | number | string => cases hld
    | call | identifier => exact absurd hword.symm (hreserved hd)
    | bool b' =>
      refine ⟨?_, hbehind⟩
      rw [spanless, spanless, boolKeyword_text_inj (String.toList_inj.1 hword)]
  | identifier name =>
    cases d with
    | binary | number | string => cases hld
    | bool => exact absurd hword (hreserved he)
    | call => exact absurd hbehind.symm (hopen hr)
    | identifier name' =>
      refine ⟨?_, hbehind⟩
      rw [spanless, spanless, String.toList_inj.1 hword]

mutual

/-- **An expression can be told from its text**, and from what stands behind it. -/
theorem text_append_inj : ∀ (e d : Expr) {r s : List Char}, (∀ x ∈ e.parts, x.Legible) →
    (∀ x ∈ d.parts, x.Legible) → Stops r → Stops s →
    e.text.toList ++ r = d.text.toList ++ s → e.spanless = d.spanless ∧ r = s := by
  intro e d r s he hd hr hs h
  have hlead := (he _ e.self_mem_parts).lead_eq (hd _ d.self_mem_parts) h
  cases e with
  | binary level lhs op opSpan rhs span =>
    cases d with
    | call | number | bool | string | identifier => cases hlead
    | binary level' lhs' op' opSpan' rhs' span' =>
      obtain ⟨hlevel, hlhs, hlegible⟩ := forall_mem_parts_binary.1 he
      obtain ⟨hlevel', hlhs', hlegible'⟩ := forall_mem_parts_binary.1 hd
      simp only [toList_text_binary, List.cons_append, List.append_assoc, List.nil_append,
        List.cons.injEq, true_and] at h
      obtain ⟨hleft, hop⟩ := text_append_inj lhs lhs' hlhs hlhs' (stops_cons (.inl rfl) _)
        (stops_cons (.inl rfl) _) h
      obtain ⟨hop, hrhs⟩ := append_mark_inj op.space_not_mem_text op'.space_not_mem_text
        (List.cons.inj hop).2
      obtain ⟨hright, hclosed⟩ := text_append_inj rhs rhs' hlegible hlegible'
        (stops_cons (.inr (.inr rfl)) _) (stops_cons (.inr (.inr rfl)) _) hrhs
      refine ⟨?_, (List.cons.inj hclosed).2⟩
      rw [spanless, spanless, hleft, hright, hlevel, hlevel', Operator.text_inj hop]
  | number x =>
    cases d with
    | binary | call | bool | string | identifier => cases hlead
    | number x' =>
      have hx : x.isFinite := he _ (self_mem_parts _)
      have hx' : x'.isFinite := hd _ (self_mem_parts _)
      obtain ⟨htext, hrest⟩ := append_run_inj (isNumberChar_of_mem_numberText hx)
        (isNumberChar_of_mem_numberText hx') hr.not_isNumberChar hs.not_isNumberChar h
      obtain rfl := numberText_inj hx hx' (String.toList_inj.1 htext)
      exact ⟨rfl, hrest⟩
  | string =>
    cases d with
    | binary | call | number | bool | identifier => cases hlead
    | string =>
      obtain ⟨rfl, hrest⟩ := quoted_append_inj h
      exact ⟨rfl, hrest⟩
  | bool | identifier =>
    exact spanless_eq_of_letter (he _ (self_mem_parts _)) (hd _ d.self_mem_parts) rfl hlead.symm hr
      hs h nofun
  | call callee args span =>
    refine spanless_eq_of_letter (he _ (self_mem_parts _)) (hd _ d.self_mem_parts) rfl hlead.symm hr
      hs h ?_
    rintro _ _ _ callee' args' span' ⟨⟩ rfl hargs
    have hall := (forall_mem_parts_call.1 he).2
    have hall' := (forall_mem_parts_call.1 hd).2
    exact moreText_append_inj args args' hall hall'
      (moreText_of_argumentsText (fun e he => hall e he _ e.self_mem_parts)
        (fun d hd => hall' d hd _ d.self_mem_parts) hargs)

theorem moreText_append_inj : ∀ (es ds : List Expr) {r s : List Char},
    (∀ e ∈ es, ∀ x ∈ e.parts, x.Legible) → (∀ d ∈ ds, ∀ x ∈ d.parts, x.Legible) →
    moreText es ++ ')' :: r = moreText ds ++ ')' :: s →
    spanlessAll es = spanlessAll ds ∧ r = s := by
  intro es ds r s hes hds h
  cases es with
  | nil =>
    cases ds with
    | nil => exact ⟨rfl, (List.cons.inj h).2⟩
    | cons => exact absurd (List.cons.inj h).1 (by decide)
  | cons e es =>
    cases ds with
    | nil => exact absurd (List.cons.inj h).1 (by decide)
    | cons d ds =>
      rw [List.forall_mem_cons] at hes hds
      simp only [moreText, List.cons_append, List.append_assoc, List.cons.injEq, true_and] at h
      obtain ⟨hhead, h⟩ := text_append_inj e d hes.1 hds.1 (stops_moreText es r)
        (stops_moreText ds s) h
      obtain ⟨htail, h⟩ := moreText_append_inj es ds hes.2 hds.2 h
      exact ⟨by rw [spanlessAll, spanlessAll, hhead, htail], h⟩

end

/-! ### Spans -/

mutual

/-- Spans do not show. -/
theorem text_spanless : ∀ e : Expr, e.spanless.text = e.text
  | binary _ lhs _ _ rhs _ => by rw [spanless, text, text, lhs.text_spanless, rhs.text_spanless]
  | call _ args _ => by rw [spanless, text, text, texts_spanlessAll args, Identifier.name_spanless]
  | number .. | bool .. | string .. | identifier .. => rfl

theorem texts_spanlessAll : ∀ es : List Expr, texts (spanlessAll es) = texts es
  | [] => rfl
  | e :: es => by rw [spanlessAll, texts, texts, e.text_spanless, texts_spanlessAll es]

end

/-- **Legible expressions have the same text exactly if they are the same without spans.** -/
theorem text_eq_iff {e d : Expr} (he : ∀ x ∈ e.parts, x.Legible) (hd : ∀ x ∈ d.parts, x.Legible) :
    e.text = d.text ↔ e.spanless = d.spanless := by
  constructor
  · intro h
    exact (text_append_inj e d he hd stops_nil stops_nil (by rw [h])).1
  · intro h
    rw [← e.text_spanless, h, d.text_spanless]

end Expr

end Scriptlet
