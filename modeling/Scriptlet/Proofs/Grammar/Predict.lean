import Mathlib.Computability.Language
import Mathlib.Order.CompletePartialOrder
import Scriptlet.Proofs.Grammar.Reading

/-!
# Readers that predict

A reader never takes back what it has taken. So it is right about a language only if it is never
wrong on the way: what it takes must be what any word of the language takes that goes on with the
same token, and where it fails, no word of the language goes on with that token.

What stands behind a word of the language is not for the reader of that word to know. It is any
language `K` whose words start with tokens that `follow` admits. This makes the notion fit together:
a sequence of readers predicts the product of their languages, and a choice predicts the sum, if the
next token tells the two apart.

Where a reader fails in other ways, because of a name or of nesting, nothing is asked of it.

## Main definitions

* `Grammar.kinds`, `Grammar.firstKind` — words of kinds of tokens, and how they start
* `Grammar.StartsIn`, `Grammar.HeadsIn` — languages by how their words start
* `Grammar.Taken`, `Grammar.Stuck` — a reader is right to take some tokens, and to stop behind them
* `Reader.Predicts` — a reader is right about a language, on some row of tokens

## Main results

* `Reader.Predicts.bind` — a sequence predicts a product
* `Reader.Predicts.left`, `right` — a choice predicts a sum
* `Reader.Predicts.commaSeparated` — items with commas between them
-/

namespace Scriptlet

variable {α β : Type}

namespace Grammar

/-! ### Words and languages -/

/-- The kinds of some tokens. -/
def kinds (ts : List Token) : List Token.Kind := ts.map Token.kind

/-- How a word goes on, where the end is a kind as well. -/
def firstKind (w : List Token.Kind) : Token.Kind := w.headD .endOfFile

@[simp] theorem kinds_nil : kinds [] = [] := rfl

@[simp] theorem kinds_cons (t : Token) (ts : List Token) : kinds (t :: ts) = t.kind :: kinds ts :=
  rfl

@[simp] theorem kinds_append (us vs : List Token) : kinds (us ++ vs) = kinds us ++ kinds vs :=
  List.map_append

/-- A word that goes on as a row of tokens does so behind other tokens, too. -/
theorem firstKind_append {w : List Token.Kind} {rest : List Token}
    (h : firstKind w = (nextToken rest).kind) (us : List Token) :
    firstKind (kinds us ++ w) = (nextToken (us ++ rest)).kind := by
  cases us with
  | nil => exact h
  | cons t us => rfl

/-- All words go on with kinds that are admitted. -/
def StartsIn (admits : Token.Kind → Prop) (L : Language Token.Kind) : Prop :=
  ∀ w ∈ L, admits (firstKind w)

/-- All words have a first token, and its kind is admitted. -/
def HeadsIn (admits : Token.Kind → Prop) (L : Language Token.Kind) : Prop :=
  ∀ w ∈ L, ∃ k v, w = k :: v ∧ admits k

/-- The words of a single token of some kinds. -/
def single (admits : Token.Kind → Prop) : Language Token.Kind := {w | ∃ k, admits k ∧ w = [k]}

section

variable {admits admits' : Token.Kind → Prop} {L M : Language Token.Kind}

theorem mem_single_mul {w : List Token.Kind} :
    w ∈ single admits * L ↔ ∃ k v, w = k :: v ∧ admits k ∧ v ∈ L := by
  rw [Language.mem_mul]
  constructor
  · rintro ⟨_, ⟨k, hk, rfl⟩, v, hv, rfl⟩
    exact ⟨k, v, rfl, hk, hv⟩
  · rintro ⟨k, v, rfl, hk, hv⟩
    exact ⟨[k], ⟨k, hk, rfl⟩, v, hv, rfl⟩

theorem headsIn_single : HeadsIn admits (single admits) := by
  rintro _ ⟨k, hk, rfl⟩
  exact ⟨k, [], rfl, hk⟩

theorem HeadsIn.mul (h : HeadsIn admits L) (M : Language Token.Kind) : HeadsIn admits (L * M) := by
  rintro _ ⟨u, hu, v, -, rfl⟩
  obtain ⟨k, u, rfl, hk⟩ := h u hu
  exact ⟨k, u ++ v, rfl, hk⟩

theorem HeadsIn.add (h : HeadsIn admits L) (h' : HeadsIn admits M) : HeadsIn admits (L + M) :=
  fun w hw => ((Language.mem_add L M w).1 hw).elim (h w) (h' w)

theorem HeadsIn.mono (h : HeadsIn admits L) (hk : ∀ k, admits k → admits' k) :
    HeadsIn admits' L := by
  intro w hw
  obtain ⟨k, v, rfl, hkv⟩ := h w hw
  exact ⟨k, v, rfl, hk k hkv⟩

/-- A word with a first token takes at least one round. -/
theorem HeadsIn.length_le (h : HeadsIn admits L) {us rest : List Token} {n : Nat}
    (hus : kinds us ∈ L) (hlen : (us ++ rest).length ≤ n + 1) : rest.length ≤ n := by
  obtain ⟨k, v, hkv, -⟩ := h _ hus
  have huslen := congrArg List.length hkv
  simp only [kinds, List.length_map, List.length_cons] at huslen
  rw [List.length_append] at hlen
  omega

theorem HeadsIn.startsIn (h : HeadsIn admits L) : StartsIn admits L := by
  intro w hw
  obtain ⟨k, v, rfl, hk⟩ := h w hw
  exact hk

theorem StartsIn.mono (h : StartsIn admits L) (hk : ∀ k, admits k → admits' k) :
    StartsIn admits' L :=
  fun w hw => hk _ (h w hw)

theorem StartsIn.ne {k : Token.Kind} (h : StartsIn admits L) (hk : ¬ admits k) :
    StartsIn (· ≠ k) L :=
  h.mono fun _ h' heq => hk (heq ▸ h')

/-- No word with a first token of other kinds goes on with a token. -/
theorem HeadsIn.ne {k : Token.Kind} (h : HeadsIn admits L) (hk : ¬ admits k)
    (K : Language Token.Kind) : StartsIn (· ≠ k) (L * K) :=
  (h.mul K).startsIn.ne hk

theorem StartsIn.add (h : StartsIn admits L) (h' : StartsIn admits M) : StartsIn admits (L + M) :=
  fun w hw => ((Language.mem_add L M w).1 hw).elim (h w) (h' w)

end

/-! ### Tokens that are taken, and tokens that are not -/

variable {follow follow' : Token.Kind → Prop} {L M : Language Token.Kind} {us vs rest : List Token}

/-- Some tokens are a word of `L`, and whatever starts with them, goes on as `rest` does and is a
word of `L` followed by something, is these tokens followed by it. -/
structure Taken (follow : Token.Kind → Prop) (L : Language Token.Kind) (us rest : List Token) :
    Prop where
  noEnd : NoEnd us
  mem : kinds us ∈ L
  forced : ∀ K, StartsIn follow K → ∀ w, firstKind w = (nextToken rest).kind →
    kinds us ++ w ∈ L * K → w ∈ K

/-- Some tokens start a word of `L`, but nothing that starts with them and goes on as `rest` does is
a word of `L` followed by something. -/
structure Stuck (follow : Token.Kind → Prop) (L : Language Token.Kind) (us rest : List Token) :
    Prop where
  noEnd : NoEnd us
  viable : ∃ w, kinds us ++ w ∈ L
  dead : ∀ K, StartsIn follow K → ∀ w, firstKind w = (nextToken rest).kind →
    kinds us ++ w ∉ L * K

theorem Taken.append (h : Taken follow' L us (vs ++ rest)) (h' : Taken follow M vs rest)
    (hs : ∀ K, StartsIn follow K → StartsIn follow' (M * K)) :
    Taken follow (L * M) (us ++ vs) rest where
  noEnd := noEnd_append.2 ⟨h.noEnd, h'.noEnd⟩
  mem := by
    rw [kinds_append]
    exact Language.append_mem_mul h.mem h'.mem
  forced K hK w hw hmem := by
    rw [kinds_append, List.append_assoc, mul_assoc] at hmem
    exact h'.forced K hK w hw (h.forced (M * K) (hs K hK) _ (firstKind_append hw vs) hmem)

theorem Taken.stuck (h : Taken follow' L us (vs ++ rest)) (h' : Stuck follow M vs rest)
    (hs : ∀ K, StartsIn follow K → StartsIn follow' (M * K)) :
    Stuck follow (L * M) (us ++ vs) rest where
  noEnd := noEnd_append.2 ⟨h.noEnd, h'.noEnd⟩
  viable := by
    obtain ⟨w, hw⟩ := h'.viable
    rw [kinds_append]
    refine ⟨w, ?_⟩
    rw [List.append_assoc]
    exact Language.append_mem_mul h.mem hw
  dead K hK w hw hmem := by
    rw [kinds_append, List.append_assoc, mul_assoc] at hmem
    exact h'.dead K hK w hw (h.forced (M * K) (hs K hK) _ (firstKind_append hw vs) hmem)

theorem Stuck.mul (h : Stuck follow' L us rest) (hM : ∃ w, w ∈ M)
    (hs : ∀ K, StartsIn follow K → StartsIn follow' (M * K)) : Stuck follow (L * M) us rest where
  noEnd := h.noEnd
  viable := by
    obtain ⟨w, hw⟩ := h.viable
    obtain ⟨v, hv⟩ := hM
    refine ⟨w ++ v, ?_⟩
    rw [← List.append_assoc]
    exact Language.append_mem_mul hw hv
  dead K hK w hw hmem := by
    rw [mul_assoc] at hmem
    exact h.dead (M * K) (hs K hK) w hw hmem

/-- Words of `L` that go on as some tokens do are words of `M`. -/
def Narrows (follow : Token.Kind → Prop) (L M : Language Token.Kind) (ts : List Token) : Prop :=
  M ≤ L ∧ ∀ K, StartsIn follow K → ∀ w, firstKind w = (nextToken ts).kind → w ∈ L * K → w ∈ M * K

theorem Taken.narrow (h : Taken follow M us rest) (hn : Narrows follow L M (us ++ rest)) :
    Taken follow L us rest where
  noEnd := h.noEnd
  mem := hn.1 h.mem
  forced K hK w hw hmem := h.forced K hK w hw (hn.2 K hK _ (firstKind_append hw us) hmem)

theorem Stuck.narrow (h : Stuck follow M us rest) (hn : Narrows follow L M (us ++ rest)) :
    Stuck follow L us rest where
  noEnd := h.noEnd
  viable := h.viable.imp fun _ hw => hn.1 hw
  dead K hK w hw hmem := h.dead K hK w hw (hn.2 K hK _ (firstKind_append hw us) hmem)

/-- Nothing is taken for the empty word. -/
theorem taken_one : Taken follow 1 [] rest where
  noEnd := .nil
  mem := Language.nil_mem_one
  forced K _ _ _ hmem := by rwa [one_mul] at hmem

theorem taken_single {admits : Token.Kind → Prop} {t : Token} (hend : t.kind ≠ .endOfFile)
    (ht : admits t.kind) : Taken follow (single admits) [t] rest where
  noEnd := noEnd_cons.2 ⟨hend, .nil⟩
  mem := ⟨t.kind, ht, rfl⟩
  forced K _ w _ hmem := by
    obtain ⟨k, v, hkv, -, hv⟩ := mem_single_mul.1 hmem
    obtain ⟨-, rfl⟩ := List.cons.inj hkv
    exact hv

/-- Nothing of a language whose words start differently is there. -/
theorem stuck_nil {admits : Token.Kind → Prop} (hL : HeadsIn admits L) (hne : ∃ w, w ∈ L)
    (hk : ¬ admits (nextToken rest).kind) : Stuck follow L [] rest where
  noEnd := .nil
  viable := hne
  dead K _ _ hw hmem := hk (hw ▸ (hL.mul K).startsIn _ hmem)

/-- A row of tokens with a mark of the end. -/
def HasEnd (ts : List Token) : Prop := ∃ t ∈ ts, t.kind = .endOfFile

theorem HasEnd.of_append (h : HasEnd (us ++ rest)) (hus : NoEnd us) : HasEnd rest := by
  obtain ⟨t, ht, hk⟩ := h
  rcases List.mem_append.1 ht with ht | ht
  · exact absurd hk (hus t ht)
  · exact ⟨t, ht, hk⟩

end Grammar

namespace Reader

open Grammar

/-- A reader is right about a language on a row of tokens: where it succeeds, what it takes is
forced, and where it does not find what it asks for, no word of the language goes on there. -/
structure Predicts (r : Reader α) (follow : Token.Kind → Prop) (L : Language Token.Kind)
    (ts : List Token) : Prop where
  ok : HasEnd ts → ∀ {a rest}, r ts = .ok (a, rest) → ∃ us, ts = us ++ rest ∧
    Taken follow L us rest
  error : HasEnd ts → ∀ {x got hint}, r ts = .error (.unexpected x got hint) →
    ∃ us rest, ts = us ++ rest ∧ got = nextToken rest ∧ Stuck follow L us rest

namespace Predicts

variable {follow follow' : Token.Kind → Prop} {L M : Language Token.Kind} {ts : List Token}

/-- Nothing is asked of a row without a mark of the end. -/
theorem nil {r : Reader α} : Predicts r follow L [] :=
  have hempty : ¬ HasEnd [] := fun ⟨_, ht, _⟩ => List.not_mem_nil ht
  ⟨fun hend => absurd hend hempty, fun hend => absurd hend hempty⟩

theorem congr {r r' : Reader α} (h : Predicts r' follow L ts) (hr : r ts = r' ts) :
    Predicts r follow L ts where
  ok hend _ _ ho := h.ok hend (hr ▸ ho)
  error hend _ _ _ ho := h.error hend (hr ▸ ho)

theorem narrow {r : Reader α} (h : Predicts r follow M ts) (hn : Narrows follow L M ts) :
    Predicts r follow L ts where
  ok hend _ _ ho := by
    obtain ⟨us, rfl, htaken⟩ := h.ok hend ho
    exact ⟨us, rfl, htaken.narrow hn⟩
  error hend _ _ _ ho := by
    obtain ⟨us, rest, rfl, hgot, hstuck⟩ := h.error hend ho
    exact ⟨us, rest, rfl, hgot, hstuck.narrow hn⟩

theorem mono {r : Reader α} (h : Predicts r follow' L ts) (hf : ∀ k, follow k → follow' k) :
    Predicts r follow L ts where
  ok hend _ _ ho := by
    obtain ⟨us, hus, htaken⟩ := h.ok hend ho
    exact ⟨us, hus, htaken.noEnd, htaken.mem, fun K hK => htaken.forced K (hK.mono hf)⟩
  error hend _ _ _ ho := by
    obtain ⟨us, rest, hus, hgot, hstuck⟩ := h.error hend ho
    exact ⟨us, rest, hus, hgot, hstuck.noEnd, hstuck.viable,
      fun K hK => hstuck.dead K (hK.mono hf)⟩

/-- It is right to stop where nothing goes on. -/
theorem unexpected {x : Expected} {hint : Option Hint} (hL : ∃ w, w ∈ L)
    (hne : ∀ K, StartsIn follow K → StartsIn (· ≠ (nextToken ts).kind) (L * K)) :
    Predicts (unexpected x hint : Reader α) follow L ts where
  ok _ _ _ ho := by simp at ho
  error _ _ _ _ ho := by
    obtain ⟨-, rfl, -⟩ := by simpa using ho
    exact ⟨[], ts, rfl, rfl, .nil, hL, fun K hK w hw hmem => hne K hK w hmem hw⟩

/-! ### Sequences -/

/-- **A sequence of readers predicts the product of their languages.** -/
theorem bind {m : Reader α} {f : α → Reader β} (hm : Predicts m follow' L ts)
    (hf : ∀ a us rest, ts = us ++ rest → kinds us ∈ L → Predicts (f a) follow M rest)
    (hM : ∃ w, w ∈ M) (hs : ∀ K, StartsIn follow K → StartsIn follow' (M * K)) :
    Predicts (m >>= f) follow (L * M) ts where
  ok hend b rest ho := by
    obtain ⟨a, mid, ha, hb⟩ := bind_eq_ok_iff.1 ho
    obtain ⟨us, rfl, hus⟩ := hm.ok hend ha
    obtain ⟨vs, rfl, hvs⟩ := (hf a us mid rfl hus.mem).ok (hend.of_append hus.noEnd) hb
    exact ⟨us ++ vs, (List.append_assoc ..).symm, hus.append hvs hs⟩
  error hend x got hint ho := by
    rw [bind_apply] at ho
    cases hr : m ts with
    | error e =>
      -- a word of the first language can be completed, as there is one of the second
      rw [hr] at ho
      obtain rfl := Except.error.inj ho
      obtain ⟨us, rest, hus, hgot, hstuck⟩ := hm.error hend hr
      exact ⟨us, rest, hus, hgot, hstuck.mul hM hs⟩
    | ok p =>
      obtain ⟨a, mid⟩ := p
      rw [hr] at ho
      obtain ⟨us, rfl, hus⟩ := hm.ok hend hr
      obtain ⟨vs, rest, rfl, hgot, hstuck⟩ :=
        (hf a us mid rfl hus.mem).error (hend.of_append hus.noEnd) ho
      exact ⟨us ++ vs, rest, (List.append_assoc ..).symm, hgot, hus.stuck hstuck hs⟩

theorem pure (a : α) : Predicts (pure a : Reader α) follow 1 ts where
  ok _ _ _ ho := by
    obtain ⟨rfl, rfl⟩ := by simpa using ho
    exact ⟨[], rfl, taken_one⟩
  error _ _ _ _ ho := by simp at ho

/-- What is made of a result plays no part. -/
theorem map {m : Reader α} (h : Predicts m follow L ts) (f : α → β) :
    Predicts (f <$> m) follow L ts where
  ok hend b rest ho := by
    obtain ⟨a, ha, -⟩ := map_eq_ok_iff.1 ho
    exact h.ok hend ha
  error hend x got hint ho := by
    rw [map_apply] at ho
    cases hr : m ts with
    | error e =>
      rw [hr] at ho
      obtain rfl := Except.error.inj ho
      exact h.error hend hr
    | ok p =>
      rw [hr] at ho
      cases ho

theorem bind_pure {m : Reader α} (h : Predicts m follow L ts) (f : α → β) :
    Predicts (m >>= fun a => Pure.pure (f a)) follow L ts := by
  rw [← map_eq_pure_bind]
  exact h.map f

/-- A reader that fails in another way is not asked for anything. -/
theorem throw {e : ParseError} (he : ∀ x got hint, e ≠ .unexpected x got hint) :
    Predicts (throw e : Reader α) follow L ts where
  ok _ _ _ ho := by simp at ho
  error _ _ _ _ ho := absurd (Except.error.inj ho) (he _ _ _)

/-- A sum is narrowed to its first part where the next token starts no word of the second. -/
theorem left {r : Reader α} (h : Predicts r follow L ts)
    (hne : ∀ K, StartsIn follow K → StartsIn (· ≠ (nextToken ts).kind) (M * K)) :
    Predicts r follow (L + M) ts := by
  refine h.narrow ⟨le_self_add, fun K hK w hw hmem => ?_⟩
  rw [add_mul, Language.mem_add] at hmem
  exact hmem.resolve_right fun hM => hne K hK w hM hw

/-- A sum is narrowed to its second part where the next token starts no word of the first. -/
theorem right {r : Reader α} (h : Predicts r follow M ts)
    (hne : ∀ K, StartsIn follow K → StartsIn (· ≠ (nextToken ts).kind) (L * K)) :
    Predicts r follow (L + M) ts := by
  rw [add_comm]
  exact h.left hne

section

variable {r : Reader α} {admits : Token.Kind → Prop}

/-- What may be left out is left out where it does not start. -/
theorem stop {a : α} (hr : r ts = .ok (a, ts)) (hM : HeadsIn admits M)
    (hk : ¬ admits (nextToken ts).kind) : Predicts r follow (1 + M) ts :=
  ((Predicts.pure a).congr hr).left fun K _ => hM.ne hk K

end

/-! ### Single tokens -/

/-- One token, and then another reader. -/
theorem cons {r r' : Reader α} {t : Token} {admits : Token.Kind → Prop}
    (h : Predicts r' follow L ts) (hr : r (t :: ts) = r' ts) (hend : t.kind ≠ .endOfFile)
    (ht : admits t.kind) : Predicts r follow (single admits * L) (t :: ts) := by
  have hfirst : ∀ rest, Taken anything (single admits) [t] rest := fun _ => taken_single hend ht
  have hrest : HasEnd (t :: ts) → HasEnd ts := fun h =>
    @HasEnd.of_append [t] ts h (noEnd_cons.2 ⟨hend, .nil⟩)
  constructor
  · intro hends a rest ho
    obtain ⟨us, rfl, hus⟩ := h.ok (hrest hends) (hr ▸ ho)
    exact ⟨t :: us, rfl, (hfirst _).append hus fun _ _ _ _ => trivial⟩
  · intro hends x got hint ho
    obtain ⟨us, rest, rfl, hgot, hus⟩ := h.error (hrest hends) (hr ▸ ho)
    exact ⟨t :: us, rest, rfl, hgot, (hfirst _).stuck hus fun _ _ _ _ => trivial⟩

end Predicts

/-- A reader takes one token of some kinds, or asks for one. -/
structure TakesOne (r : Reader α) (admits : Token.Kind → Prop) : Prop where
  ok : ∀ t ts, admits t.kind → ∃ a, r (t :: ts) = .ok (a, ts)
  error : ∀ ts, ¬ admits (nextToken ts).kind →
    ∃ x hint, r ts = .error (.unexpected x (nextToken ts) hint)
  not_end : ¬ admits .endOfFile
  exists_kind : ∃ k, admits k

/-- It is enough that the next token is right. -/
theorem TakesOne.predicts_of {r : Reader α} {admits admits' follow : Token.Kind → Prop}
    (h : TakesOne r admits) {ts : List Token}
    (hiff : admits (nextToken ts).kind ↔ admits' (nextToken ts).kind) (hne : ∃ k, admits' k) :
    Predicts r follow (single admits') ts where
  ok _ a rest ho := by
    by_cases hk : admits (nextToken ts).kind
    · have hend : (nextToken ts).kind ≠ .endOfFile := fun hend => h.not_end (hend ▸ hk)
      obtain ⟨t, us, rfl, -⟩ := exists_cons_of_nextToken rfl hend
      obtain ⟨a', ha⟩ := h.ok t us hk
      obtain ⟨rfl, rfl⟩ := by simpa [ha] using ho
      exact ⟨[t], rfl, taken_single hend (hiff.1 hk)⟩
    · obtain ⟨x, hint, he⟩ := h.error ts hk
      simp [he] at ho
  error _ x got hint ho := by
    by_cases hk : admits (nextToken ts).kind
    · obtain ⟨t, us, rfl, -⟩ := exists_cons_of_nextToken rfl fun hend => h.not_end (hend ▸ hk)
      obtain ⟨a, ha⟩ := h.ok t us hk
      simp [ha] at ho
    · obtain ⟨x', hint', he⟩ := h.error ts hk
      obtain ⟨-, rfl, -⟩ := by simpa [he] using ho
      obtain ⟨k, hadmits⟩ := hne
      exact ⟨[], ts, rfl, rfl, stuck_nil headsIn_single ⟨[k], k, hadmits, rfl⟩ (mt hiff.2 hk)⟩

theorem TakesOne.predicts {r : Reader α} {admits : Token.Kind → Prop} (h : TakesOne r admits)
    {follow : Token.Kind → Prop} (ts : List Token) : Predicts r follow (single admits) ts :=
  h.predicts_of .rfl h.exists_kind

/-- One token, and what is read behind it. -/
theorem TakesOne.bind {m : Reader α} {f : α → Reader β} {admits follow : Token.Kind → Prop}
    {M : Language Token.Kind} (hm : TakesOne m admits)
    (hf : ∀ a rest, Predicts (f a) follow M rest) (hM : ∃ w, w ∈ M) (ts : List Token) :
    Predicts (m >>= f) follow (single admits * M) ts :=
  (hm.predicts ts : Predicts m anything (single admits) ts).bind (fun a _ rest _ _ => hf a rest) hM
    fun _ _ _ _ => trivial

section

variable {item : List α → Reader α} {follow follow' admits : Token.Kind → Prop}
  {I C : Language Token.Kind}

end

end Reader

end Scriptlet
