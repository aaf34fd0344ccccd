import Mathlib.Data.List.TakeWhile
import Scriptlet.Json.Parser
import Scriptlet.Proofs.Decimal.Digits

/-!
# Reading back what was written

A JSON value that is written and read again is the same value, as long as its numbers are numbers of
JSON and no part of it is a string that there is none of. So nothing gets lost on the way: no
character of a string, no digit of a number, and no member of an object, not even one with a name
that comes up twice.

A value is read with more text behind it, and stops where it was written to stop, as no digit and no
sign of a number follows. Its text also bounds the steps that its reader takes.

## Main definitions

* `JsonNumber.Proper`, `Json.Proper` — what can be read back
* `EndsNumber` — a text that does not go on with a number

## Main results

* `readString_flatMap_escape` — strings are read back, whatever characters they hold
* `JsonNumber.readNumber_write` — numbers are read back digit by digit
* `Json.parse?_text` — values are read back
-/

namespace Scriptlet

/-- A number of JSON: digits before the point, the first of which is no zero before others, and
digits wherever a fraction or an exponent is. -/
structure JsonNumber.Proper (n : JsonNumber) : Prop where
  whole : IsDigits n.whole
  leading : 1 < n.whole.length → n.whole.head? ≠ some '0'
  fraction : ∀ ds ∈ n.fraction, IsDigits ds
  exponent : ∀ e ∈ n.exponent, IsDigits e.2

theorem JsonNumber.proper_ofNat (n : Nat) : (ofNat n).Proper where
  whole := isDigits_natDigits n
  leading h := by
    refine head?_natDigits (Nat.pos_of_ne_zero ?_)
    rintro rfl
    exact absurd h (by decide)
  fraction := nofun
  exponent := nofun

/-- The rest of a text does not go on with a number. -/
def EndsNumber (rest : List Char) : Prop :=
  ∀ c ∈ rest.head?, c.isDigit = false ∧ c ≠ '.' ∧ c ≠ 'e' ∧ c ≠ 'E'

theorem endsNumber_nil : EndsNumber [] := nofun

theorem endsNumber_cons {c : Char} (hc : c = ',' ∨ c = ']' ∨ c = '\x7d') (cs : List Char) :
    EndsNumber (c :: cs) := by
  intro d hd
  obtain rfl : c = d := Option.some.inj hd
  rcases hc with rfl | rfl | rfl <;> decide

namespace Json

mutual

/-- A value that can be read back. -/
def Proper : Json → Prop
  | null | bool _ | string _ => True
  | number n => n.Proper
  | array items => ProperItems items
  | object members => ProperMembers members
  | damaged => False

def ProperItems : List Json → Prop
  | [] => True
  | x :: xs => x.Proper ∧ ProperItems xs

def ProperMembers : List (String × Json) → Prop
  | [] => True
  | (_, x) :: xs => x.Proper ∧ ProperMembers xs

end

theorem proper_nat (n : Nat) : (nat n).Proper := JsonNumber.proper_ofNat n

/-! ### Strings -/

theorem hexUnit?_control {n : Nat} (h : n < 0x20) :
    hexUnit? '0' '0' (Nat.digitChar (n / 16)) (Nat.digitChar (n % 16)) = some n := by
  have hall : ∀ n < 0x20,
      hexUnit? '0' '0' (Nat.digitChar (n / 16)) (Nat.digitChar (n % 16)) = some n := by decide
  exact hall n h

theorem joinPieces_control {c : Char} (h : c.toNat < 0x20) (ps : List Piece) :
    joinPieces (.unit c.toNat :: ps) = (joinPieces ps).map (c :: ·) := by
  have hhigh : isHighSurrogate c.toNat = false := by
    simp only [isHighSurrogate, Bool.and_eq_false_iff, decide_eq_false_iff_not]
    omega
  have hlow : isLowSurrogate c.toNat = false := by
    simp only [isLowSurrogate, Bool.and_eq_false_iff, decide_eq_false_iff_not]
    omega
  rw [joinPieces.eq_def]
  simp only [hhigh, hlow, Bool.false_eq_true, if_false, Char.ofNat_toNat]

theorem readPieces_plain {c : Char} (hquote : c ≠ '"') (hbackslash : c ≠ '\\')
    (hcontrol : ¬ c.toNat < 0x20) (cs : List Char) :
    readPieces (c :: cs) = (readPieces cs).map (consPiece (.char c)) := by
  rw [readPieces.eq_def]
  simp only [if_neg hquote, if_neg hbackslash, if_neg hcontrol]

theorem readPieces_escape {e d : Char} (hu : e ≠ 'u') (he : unescape? e = some d)
    (cs : List Char) :
    readPieces ('\\' :: e :: cs) = (readPieces cs).map (consPiece (.char d)) := by
  rw [readPieces.eq_def]
  have hquote : '\\' ≠ '"' := by decide
  simp only [if_neg hquote, if_true]
  split
  · rename_i h
    exact absurd (List.cons.inj h).1 hu
  · rename_i h
    obtain ⟨rfl, rfl⟩ := List.cons.inj h
    rw [he]
    cases readPieces cs <;> rfl
  · rename_i h
    cases h

theorem readPieces_unit {h₁ h₂ h₃ h₄ : Char} {n : Nat} (h : hexUnit? h₁ h₂ h₃ h₄ = some n)
    (cs : List Char) :
    readPieces ('\\' :: 'u' :: h₁ :: h₂ :: h₃ :: h₄ :: cs) =
      (readPieces cs).map (consPiece (.unit n)) := by
  have hquote : '\\' ≠ '"' := by decide
  rw [readPieces.eq_def]
  simp only [if_neg hquote, if_true, h]
  cases readPieces cs <;> rfl

/-- A character is read back from its text as one piece that stands for it. -/
theorem exists_piece (c : Char) :
    ∃ p, (∀ cs, readPieces (escape c ++ cs) = (readPieces cs).map (consPiece p)) ∧
      ∀ ps, joinPieces (p :: ps) = (joinPieces ps).map (c :: ·) := by
  unfold escape
  split
  case h_8 hquote hbackslash _ _ _ _ _ =>
    split
    · rename_i hcontrol
      exact
        ⟨.unit c.toNat, readPieces_unit (hexUnit?_control hcontrol), joinPieces_control hcontrol⟩
    · rename_i hcontrol
      exact ⟨.char c, readPieces_plain hquote hbackslash hcontrol, fun _ => rfl⟩
  all_goals exact ⟨.char _, readPieces_escape (by decide) rfl, fun _ => rfl⟩

/-- **Strings are read back**, whatever characters they hold. -/
theorem readString_flatMap_escape (s : List Char) (rest : List Char) :
    readString (s.flatMap escape ++ '"' :: rest) = some (some (String.ofList s), rest) := by
  have key : ∃ ps, readPieces (s.flatMap escape ++ '"' :: rest) = some (ps, rest) ∧
      joinPieces ps = some s := by
    induction s with
    | nil =>
      refine ⟨[], ?_, rfl⟩
      rw [List.flatMap_nil, List.nil_append, readPieces.eq_def]
      rfl
    | cons c s ih =>
      obtain ⟨ps, hread, hjoin⟩ := ih
      obtain ⟨p, hp, hjoinp⟩ := exists_piece c
      refine ⟨p :: ps, ?_, ?_⟩
      · rw [List.flatMap_cons, List.append_assoc, hp, hread]
        rfl
      · rw [hjoinp, hjoin]
        rfl
  obtain ⟨ps, hread, hjoin⟩ := key
  rw [readString, hread, Option.map_some]
  simp only [hjoin, Option.map_some]

end Json

/-! ### Numbers -/

namespace JsonNumber

open Json

/-- The rest of a text does not go on with a digit. -/
def NoDigit (rest : List Char) : Prop := ∀ c ∈ rest.head?, c.isDigit = false

theorem readDigits_append {ds rest : List Char} (hd : IsDigits ds) (hr : NoDigit rest) :
    readDigits (ds ++ rest) = some (ds, rest) := by
  obtain ⟨hne, hd⟩ := hd
  have htake : rest.takeWhile Char.isDigit = [] := by
    cases rest with
    | nil => rfl
    | cons c rest => exact List.takeWhile_cons_of_neg (by simp [hr c rfl])
  have hdrop : rest.dropWhile Char.isDigit = rest := by
    cases rest with
    | nil => rfl
    | cons c rest => exact List.dropWhile_cons_of_neg (by simp [hr c rfl])
  rw [readDigits, List.takeWhile_append_of_pos hd, List.dropWhile_append_of_pos hd, htake, hdrop,
    List.append_nil]
  cases ds with
  | nil => exact absurd rfl hne
  | cons d ds => rfl

theorem readFraction_point {ds rest : List Char} (hd : IsDigits ds) (hr : NoDigit rest) :
    readFraction ('.' :: (ds ++ rest)) = some (some ds, rest) := by
  rw [readFraction, readDigits_append hd hr]
  rfl

theorem readFraction_none {rest : List Char} (hr : rest.head? ≠ some '.') :
    readFraction rest = some (none, rest) := by
  rw [readFraction.eq_def]
  split
  · exact absurd rfl hr
  · rfl

theorem readExponent_sign {ds rest : List Char} (negative : Bool) (hd : IsDigits ds)
    (hr : NoDigit rest) :
    readExponent ('e' :: (if negative then '-' else '+') :: (ds ++ rest)) =
      some (some (negative, ds), rest) := by
  cases negative <;> simp [readExponent, readDigits_append hd hr]

theorem readExponent_none {rest : List Char} (he : rest.head? ≠ some 'e')
    (hE : rest.head? ≠ some 'E') : readExponent rest = some (none, rest) := by
  cases rest with
  | nil => rfl
  | cons c rest =>
    have he : c ≠ 'e' := fun h => he (congrArg some h)
    have hE : c ≠ 'E' := fun h => hE (congrArg some h)
    simp [readExponent, he, hE]

/-- A fraction as it is written, with its point. -/
def fractionText : Option (List Char) → List Char
  | some ds => '.' :: ds
  | none => []

/-- An exponent as it is written, with its sign. -/
def exponentText : Option (Bool × List Char) → List Char
  | some (negative, ds) => 'e' :: (if negative then '-' else '+') :: ds
  | none => []

theorem write_eq (n : JsonNumber) :
    n.write =
      signText n.negative ++ (n.whole ++ (fractionText n.fraction ++ exponentText n.exponent)) := by
  rw [← List.append_assoc, ← List.append_assoc]
  rfl

theorem noDigit_exponentText (exponent : Option (Bool × List Char)) {rest : List Char}
    (hr : EndsNumber rest) : NoDigit (exponentText exponent ++ rest) := by
  rcases exponent with _ | ⟨sign, ds⟩
  · exact fun c hc => (hr c hc).1
  · rintro c ⟨⟩
    decide

theorem noDigit_fractionText (fraction : Option (List Char)) {rest : List Char}
    (hr : NoDigit rest) : NoDigit (fractionText fraction ++ rest) := by
  rcases fraction with _ | ds
  · exact hr
  · rintro c ⟨⟩
    decide

theorem readExponent_exponentText {exponent : Option (Bool × List Char)} {rest : List Char}
    (he : ∀ e ∈ exponent, IsDigits e.2) (hr : EndsNumber rest) :
    readExponent (exponentText exponent ++ rest) = some (exponent, rest) := by
  rcases exponent with _ | ⟨sign, ds⟩
  · refine readExponent_none ?_ ?_ <;> intro hc
    · exact (hr _ hc).2.2.1 rfl
    · exact (hr _ hc).2.2.2 rfl
  · exact readExponent_sign sign (he _ rfl) fun c hc => (hr c hc).1

theorem readFraction_fractionText {fraction : Option (List Char)}
    {exponent : Option (Bool × List Char)} {rest : List Char}
    (hf : ∀ ds ∈ fraction, IsDigits ds) (hr : EndsNumber rest) :
    readFraction (fractionText fraction ++ (exponentText exponent ++ rest)) =
      some (fraction, exponentText exponent ++ rest) := by
  rcases fraction with _ | ds
  · refine readFraction_none ?_
    rcases exponent with _ | ⟨sign, ds⟩
    · exact fun hc => (hr _ hc).2.1 rfl
    · intro hc
      cases hc
  · exact readFraction_point (hf _ rfl) (noDigit_exponentText exponent hr)

/-- A number is read from behind its sign. -/
theorem readUnsigned_write {n : JsonNumber} (hn : n.Proper) {rest : List Char}
    (hr : EndsNumber rest) :
    readUnsigned n.negative
      (n.whole ++ (fractionText n.fraction ++ (exponentText n.exponent ++ rest))) =
      some (n, rest) := by
  have hleading : ¬ (1 < n.whole.length ∧ n.whole.head? = some '0') :=
    fun h => hn.leading h.1 h.2
  rw [readUnsigned, readDigits_append hn.whole
    (noDigit_fractionText _ (noDigit_exponentText _ hr))]
  simp only [Option.bind_eq_bind, Option.bind_some, if_neg hleading,
    readFraction_fractionText hn.fraction hr, readExponent_exponentText hn.exponent hr]
  rfl

/-- **Numbers are read back** digit by digit, if no number follows. -/
theorem readNumber_write {n : JsonNumber} (hn : n.Proper) {rest : List Char}
    (hr : EndsNumber rest) : readNumber (n.write ++ rest) = some (n, rest) := by
  have hunsigned := readUnsigned_write hn hr
  obtain ⟨hne, hdigits⟩ := hn.whole
  rw [write_eq, signText]
  simp only [List.append_assoc]
  cases hneg : n.negative with
  | true =>
    rw [hneg] at hunsigned
    exact hunsigned
  | false =>
    rw [hneg] at hunsigned
    obtain ⟨d, ds, hwhole⟩ := List.exists_cons_of_ne_nil hne
    have hd : d ≠ '-' := by
      rintro rfl
      exact absurd (hdigits '-' (by rw [hwhole]; exact List.mem_cons_self)) (by decide)
    rw [hwhole] at hunsigned ⊢
    simp only [Bool.false_eq_true, if_false, List.nil_append, List.cons_append] at hunsigned ⊢
    rw [readNumber.eq_def]
    split
    · rename_i h
      exact absurd (List.cons.inj h).1 hd
    · exact hunsigned

/-- The text of a number starts with its sign or with a digit. -/
theorem exists_write {n : JsonNumber} (hn : n.Proper) :
    ∃ c cs, n.write = c :: cs ∧ (c = '-' ∨ c.isDigit) := by
  obtain ⟨d, ds, hwhole⟩ := List.exists_cons_of_ne_nil hn.whole.1
  rw [write_eq, hwhole, signText]
  cases n.negative with
  | true => exact ⟨_, _, rfl, .inl rfl⟩
  | false => exact ⟨_, _, rfl, .inr (hn.whole.2 d (by rw [hwhole]; exact List.mem_cons_self))⟩

end JsonNumber

/-! ### Values -/

namespace Json

theorem readValue_number {n : JsonNumber} (hn : n.Proper) {rest : List Char}
    (hr : EndsNumber rest) (steps : Nat) :
    readValue (steps + 1) (n.write ++ rest) = some (number n, rest) := by
  have hread := JsonNumber.readNumber_write hn hr
  obtain ⟨c, cs, hwrite, hc⟩ := JsonNumber.exists_write hn
  rw [hwrite, List.cons_append] at hread ⊢
  rw [readValue.eq_def]
  simp only
  split
  case h_7 => rw [hread, Option.map_some]
  all_goals
    rename_i h
    obtain ⟨rfl, -⟩ := List.cons.inj h
    exact absurd hc (by decide)

theorem write_string (s : String) :
    (string s).write = '"' :: (s.toList.flatMap escape ++ ['"']) := rfl

theorem write_array (items : List Json) :
    (array items).write = '[' :: (writeItems items ++ [']']) := rfl

theorem write_object (members : List (String × Json)) :
    (object members).write = '\x7b' :: (writeMembers members ++ ['\x7d']) := rfl

theorem writeItems_cons_cons (x y : Json) (xs : List Json) :
    writeItems (x :: y :: xs) = x.write ++ ',' :: writeItems (y :: xs) := rfl

theorem writeMembers_singleton (k : String) (x : Json) :
    writeMembers [(k, x)] = '"' :: (k.toList.flatMap escape ++ '"' :: ':' :: x.write) := by
  have h : writeMembers [(k, x)] = writeString k ++ ':' :: x.write := rfl
  rw [h, writeString, List.cons_append, List.cons_append, List.append_assoc, List.singleton_append]

theorem writeMembers_cons_cons (k : String) (x : Json) (m : String × Json)
    (ms : List (String × Json)) :
    writeMembers ((k, x) :: m :: ms) = writeMembers [(k, x)] ++ ',' :: writeMembers (m :: ms) :=
  rfl

/-- The text of a value starts with a character that is not blank and closes nothing. -/
theorem exists_write {j : Json} (hj : j.Proper) :
    ∃ c cs, j.write = c :: cs ∧ c ∉ [' ', '\t', '\n', '\r', ']'] := by
  cases j with
  | null => exact ⟨_, _, rfl, by decide⟩
  | bool b => cases b <;> exact ⟨_, _, rfl, by decide⟩
  | number n =>
    rw [Proper] at hj
    obtain ⟨c, cs, hwrite, hc⟩ := JsonNumber.exists_write hj
    refine ⟨c, cs, hwrite, fun hmem => ?_⟩
    simp only [List.mem_cons, List.not_mem_nil, or_false] at hmem
    rcases hmem with rfl | rfl | rfl | rfl | rfl <;> exact absurd hc (by decide)
  | string s => exact ⟨_, _, write_string s, by decide⟩
  | array items => exact ⟨_, _, write_array items, by decide⟩
  | object members => exact ⟨_, _, write_object members, by decide⟩
  | damaged => exact ⟨_, _, rfl, by decide⟩

theorem skipBlanks_cons {c : Char} (hc : c ∉ [' ', '\t', '\n', '\r']) (cs : List Char) :
    skipBlanks (c :: cs) = c :: cs := by
  simp only [List.mem_cons, List.not_mem_nil, or_false, not_or] at hc
  exact List.dropWhile_cons_of_neg (by simp [hc])

theorem skipBlanks_write {j : Json} (hj : j.Proper) (rest : List Char) :
    skipBlanks (j.write ++ rest) = j.write ++ rest := by
  obtain ⟨c, cs, hwrite, hc⟩ := exists_write hj
  rw [hwrite, List.cons_append]
  exact skipBlanks_cons (fun hmem => hc (List.mem_append_left [']'] hmem)) _

/-- The closing bracket or comma after an item is found at once. -/
theorem skipBlanks_close {c : Char} (hc : c = ',' ∨ c = ']' ∨ c = '\x7d') (cs : List Char) :
    skipBlanks (c :: cs) = c :: cs := by
  refine skipBlanks_cons ?_ cs
  rcases hc with rfl | rfl | rfl <;> decide

theorem exists_writeItems (x : Json) (xs : List Json) :
    ∃ cs, writeItems (x :: xs) = x.write ++ cs := by
  cases xs with
  | nil => exact ⟨[], (List.append_nil _).symm⟩
  | cons y ys => exact ⟨_, writeItems_cons_cons x y ys⟩

theorem exists_writeMembers (m : String × Json) (ms : List (String × Json)) :
    ∃ cs, writeMembers (m :: ms) = '"' :: cs := by
  obtain ⟨k, x⟩ := m
  cases ms with
  | nil => exact ⟨_, writeMembers_singleton k x⟩
  | cons m ms =>
    exact ⟨_, by rw [writeMembers_cons_cons, writeMembers_singleton]; exact List.cons_append⟩

theorem skipBlanks_writeItems {x : Json} (hx : x.Proper) (xs : List Json) (rest : List Char) :
    skipBlanks (writeItems (x :: xs) ++ rest) = writeItems (x :: xs) ++ rest := by
  obtain ⟨cs, hcs⟩ := exists_writeItems x xs
  rw [hcs, List.append_assoc]
  exact skipBlanks_write hx _

theorem skipBlanks_writeMembers (m : String × Json) (ms : List (String × Json))
    (rest : List Char) :
    skipBlanks (writeMembers (m :: ms) ++ rest) = writeMembers (m :: ms) ++ rest := by
  obtain ⟨cs, hcs⟩ := exists_writeMembers m ms
  rw [hcs]
  exact skipBlanks_cons (by decide) _

theorem readValue_array {x : Json} (hx : x.Proper) (xs : List Json) (rest : List Char)
    (steps : Nat) :
    readValue (steps + 1) ((array (x :: xs)).write ++ rest) =
      (readItems steps (writeItems (x :: xs) ++ ']' :: rest)).map
        fun r => (array r.1, r.2) := by
  rw [write_array, List.cons_append, List.append_assoc, List.singleton_append, readValue.eq_def]
  simp only [skipBlanks_writeItems hx]
  split
  · rename_i h
    obtain ⟨cs, hcs⟩ := exists_writeItems x xs
    obtain ⟨c, ds, hwrite, hc⟩ := exists_write hx
    rw [hcs, hwrite] at h
    obtain ⟨rfl, -⟩ := List.cons.inj h
    exact absurd (List.mem_append_right [' ', '\t', '\n', '\r'] (List.mem_singleton_self _)) hc
  · rfl

theorem readValue_object (m : String × Json) (ms : List (String × Json)) (rest : List Char)
    (steps : Nat) :
    readValue (steps + 1) ((object (m :: ms)).write ++ rest) =
      (readMembers steps (writeMembers (m :: ms) ++ '\x7d' :: rest)).map
        fun r => (ofMembers r.1, r.2) := by
  rw [write_object, List.cons_append, List.append_assoc, List.singleton_append, readValue.eq_def]
  simp only [skipBlanks_writeMembers]
  obtain ⟨cs, hcs⟩ := exists_writeMembers m ms
  rw [hcs]
  rfl

theorem ofMembers_map_some (members : List (String × Json)) :
    ofMembers (members.map fun m => (some m.1, m.2)) = object members := by
  have hnames : (members.map fun m => (some m.1, m.2)).mapM
      (fun m : Option String × Json => m.1.map fun k => (k, m.2)) = some members := by
    induction members with
    | nil => rfl
    | cons m ms ih => simp only [List.map_cons, List.mapM_cons, ih]; rfl
  rw [ofMembers, hnames]

section Items

variable {x : Json} {steps : Nat} {cs rest : List Char}

theorem readItems_comma (h : readValue steps cs = some (x, ',' :: rest)) :
    readItems (steps + 1) cs =
      (readItems steps (skipBlanks rest)).map fun r => (x :: r.1, r.2) := by
  rw [readItems.eq_def]
  simp only [h, Option.bind_eq_bind, Option.bind_some, skipBlanks_close (.inl rfl)]

theorem readItems_close (h : readValue steps cs = some (x, ']' :: rest)) :
    readItems (steps + 1) cs = some ([x], rest) := by
  rw [readItems.eq_def]
  simp only [h, Option.bind_eq_bind, Option.bind_some, skipBlanks_close (.inr (.inl rfl))]
  rfl

theorem readMembers_comma (k : String) (hx : x.Proper)
    (h : readValue steps (x.write ++ ',' :: rest) = some (x, ',' :: rest)) :
    readMembers (steps + 1) (writeMembers [(k, x)] ++ ',' :: rest) =
      (readMembers steps (skipBlanks rest)).map fun r => ((some k, x) :: r.1, r.2) := by
  have hcolon : ':' ∉ [' ', '\t', '\n', '\r'] := by decide
  rw [writeMembers_singleton, List.cons_append, List.append_assoc, readMembers.eq_def]
  simp only [List.cons_append, readString_flatMap_escape, Option.bind_eq_bind, Option.bind_some,
    String.ofList_toList, skipBlanks_cons hcolon, skipBlanks_write hx, h,
    skipBlanks_close (.inl rfl)]

theorem readMembers_close (k : String) (hx : x.Proper)
    (h : readValue steps (x.write ++ '\x7d' :: rest) = some (x, '\x7d' :: rest)) :
    readMembers (steps + 1) (writeMembers [(k, x)] ++ '\x7d' :: rest) =
      some ([(some k, x)], rest) := by
  have hcolon : ':' ∉ [' ', '\t', '\n', '\r'] := by decide
  rw [writeMembers_singleton, List.cons_append, List.append_assoc, readMembers.eq_def]
  simp only [List.cons_append, readString_flatMap_escape, Option.bind_eq_bind, Option.bind_some,
    String.ofList_toList, skipBlanks_cons hcolon, skipBlanks_write hx, h,
    skipBlanks_close (.inr (.inr rfl))]
  rfl

end Items

theorem length_write_pos {j : Json} (hj : j.Proper) : 0 < j.write.length := by
  obtain ⟨c, cs, hwrite, -⟩ := exists_write hj
  rw [hwrite]
  exact Nat.succ_pos _

theorem length_writeMembers_pos (m : String × Json) (ms : List (String × Json)) :
    0 < (writeMembers (m :: ms)).length := by
  obtain ⟨cs, hcs⟩ := exists_writeMembers m ms
  rw [hcs]
  exact Nat.succ_pos _

theorem length_writeMembers_singleton (k : String) (x : Json) :
    x.write.length + 3 ≤ (writeMembers [(k, x)]).length := by
  rw [writeMembers_singleton, List.length_cons, List.length_append, List.length_cons,
    List.length_cons]
  omega

mutual

/-- **Values are read back** from the start of a text. -/
theorem readValue_write (steps : Nat) (j : Json) (hj : j.Proper) {rest : List Char}
    (hr : EndsNumber rest) (hs : 2 * j.write.length ≤ steps + 1) :
    readValue steps (j.write ++ rest) = some (j, rest) := by
  have hpos := length_write_pos hj
  match steps, j with
  | 0, _ => omega
  | _ + 1, null => rfl
  | _ + 1, bool true => rfl
  | _ + 1, bool false => rfl
  | steps + 1, number n =>
    rw [Proper] at hj
    exact readValue_number hj hr steps
  | _ + 1, string s =>
    rw [write_string, List.cons_append, List.append_assoc, List.singleton_append, readValue.eq_def]
    simp only [readString_flatMap_escape, Option.map_some, Option.elim_some, String.ofList_toList]
  | _ + 1, array [] => rfl
  | steps + 1, array (x :: xs) =>
    rw [Proper] at hj
    rw [write_array, List.length_cons, List.length_append, List.length_singleton] at hs
    have hx : x.Proper := by
      rw [ProperItems] at hj
      exact hj.1
    rw [readValue_array hx, readItems_write steps x xs hj rest (by omega), Option.map_some]
  | _ + 1, object [] => rfl
  | steps + 1, object (m :: ms) =>
    rw [Proper] at hj
    rw [write_object, List.length_cons, List.length_append, List.length_singleton] at hs
    rw [readValue_object, readMembers_write steps m ms hj rest (by omega), Option.map_some,
      ofMembers_map_some]
  | _, damaged => exact hj.elim

theorem readItems_write (steps : Nat) (x : Json) (xs : List Json) (h : ProperItems (x :: xs))
    (rest : List Char) (hs : 2 * (writeItems (x :: xs)).length ≤ steps) :
    readItems steps (writeItems (x :: xs) ++ ']' :: rest) = some (x :: xs, rest) := by
  rw [ProperItems] at h
  obtain ⟨hx, hxs⟩ := h
  have hpos := length_write_pos hx
  match steps, xs with
  | 0, xs =>
    obtain ⟨cs, hcs⟩ := exists_writeItems x xs
    rw [hcs, List.length_append] at hs
    omega
  | steps + 1, [] =>
    exact readItems_close (readValue_write steps x hx (endsNumber_cons (.inr (.inl rfl)) rest) hs)
  | steps + 1, y :: ys =>
    rw [writeItems_cons_cons, List.length_append, List.length_cons] at hs
    have hread := readValue_write steps x hx
      (endsNumber_cons (.inl rfl) (writeItems (y :: ys) ++ ']' :: rest)) (by omega)
    have hy : y.Proper := by
      rw [ProperItems] at hxs
      exact hxs.1
    rw [writeItems_cons_cons, List.append_assoc, List.cons_append, readItems_comma hread,
      skipBlanks_writeItems hy, readItems_write steps y ys hxs rest (by omega), Option.map_some]

theorem readMembers_write (steps : Nat) (m : String × Json) (ms : List (String × Json))
    (h : ProperMembers (m :: ms)) (rest : List Char)
    (hs : 2 * (writeMembers (m :: ms)).length ≤ steps) :
    readMembers steps (writeMembers (m :: ms) ++ '\x7d' :: rest) =
      some ((m :: ms).map fun m => (some m.1, m.2), rest) := by
  have hpos := length_writeMembers_pos m ms
  obtain ⟨k, x⟩ := m
  rw [ProperMembers] at h
  obtain ⟨hx, hms⟩ := h
  have hmember := length_writeMembers_singleton k x
  match steps, ms with
  | 0, _ => omega
  | steps + 1, [] =>
    exact readMembers_close k hx
      (readValue_write steps x hx (endsNumber_cons (.inr (.inr rfl)) rest) (by omega))
  | steps + 1, m :: ms =>
    rw [writeMembers_cons_cons, List.length_append, List.length_cons] at hs
    have hread := readValue_write steps x hx
      (endsNumber_cons (.inl rfl) (writeMembers (m :: ms) ++ '\x7d' :: rest)) (by omega)
    rw [writeMembers_cons_cons, List.append_assoc, List.cons_append, readMembers_comma k hx hread,
      skipBlanks_writeMembers, readMembers_write steps m ms hms rest (by omega), Option.map_some]
    rfl

end

/-- **A text is read back**: it holds the value that it was written for. -/
theorem parse?_text {j : Json} (hj : j.Proper) : parse? j.text = some j := by
  have hread := readValue_write (2 * j.write.length + 2) j hj endsNumber_nil (by omega)
  have hblank := skipBlanks_write hj []
  rw [List.append_nil] at hread hblank
  rw [parse?, text, String.toList_ofList, hblank, hread]
  rfl

end Json

end Scriptlet
