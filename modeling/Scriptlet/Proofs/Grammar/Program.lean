import Scriptlet.Proofs.Grammar.Definitions
import Scriptlet.Proofs.Grammar.Statement

/-!
# Reading programs

Reading a row of tokens gives a program exactly if the row is one in the grammar and passes the
checks that the grammar leaves out. What follows the first mark of the end plays no part: no phrase
contains such a mark, and the functions are read until one is next.

## Main results

* `Reader.importLine_reads`
* `Reader.imports_sound`, `functions_sound` — what is read as imports and functions
* `Reader.program_of_isProgram` — a row of the grammar is read by adding its definitions in turn
* `Program.ofTokens_eq_ok_iff` — a program is read exactly from the rows of the grammar
-/

namespace Scriptlet

open Grammar

namespace Reader

variable {expression : Reader Expr} {n : Nat}

/-! ### Imports -/

theorem names_reads : Reads (commaSeparated fun _ => identifier)
    (fun k => anything k ∧ k ≠ .symbol .comma ∧ k ≠ .endOfFile)
    fun us names => CommaSeparated IsIdentifier us names ∧
      Admitted (fun _ _ => True) [] names := by
  refine commaSeparated_reads (fun _ => by simpa using identifier_reads) trivial ?_
  rintro _ p ⟨lexeme, rfl⟩
  exact List.cons_ne_nil _ _

theorem importLine_reads : Reads importLine anything IsImport where
  sound {ts rest line} h _ := by
    obtain ⟨start, ts₁, hstart, h⟩ := bind_eq_ok_iff.1 h
    obtain ⟨lbrace, ts₂, hlb, h⟩ := bind_eq_ok_iff.1 h
    obtain ⟨names, ts₃, hnames, h⟩ := bind_eq_ok_iff.1 h
    obtain ⟨rbrace, ts₄, hrb, h⟩ := bind_eq_ok_iff.1 h
    obtain ⟨origin, ts₅, horigin, h⟩ := bind_eq_ok_iff.1 h
    obtain ⟨⟨module, stop⟩, ts₆, hstop, h⟩ := bind_eq_ok_iff.1 h
    obtain ⟨rfl, rfl⟩ : (names.map fun name => ⟨name, module, start.span.merge stop⟩) = line ∧
      ts₆ = rest := by simpa using h
    obtain ⟨us, rfl, t, rfl, ht, rfl⟩ := stringLiteral_reads.sound hstop trivial
    obtain ⟨rfl, korigin⟩ := expect_eq_ok (by simp) horigin
    obtain ⟨rfl, krb⟩ := expect_eq_ok (by simp) hrb
    obtain ⟨vs, rfl, hvs, -⟩ := names_reads.sound hnames ⟨trivial, by simp [krb]⟩
    obtain ⟨rfl, klb⟩ := expect_eq_ok (by simp) hlb
    obtain ⟨rfl, kstart⟩ := expect_eq_ok (by simp) hstart
    refine ⟨start :: lbrace :: (vs ++ [rbrace, origin, t]), ?_,
      .mk kstart klb hvs krb korigin ht⟩
    simp
  complete {us rest line} h _ := by
    obtain @⟨start, lbrace, ts, names, rbrace, origin, module, stop, hstart, hlb, hnames, hrb,
      horigin, hstop⟩ := h
    have hn : commaSeparated (fun _ => identifier) (ts ++ rbrace :: origin :: stop :: rest) =
        .ok (names, rbrace :: origin :: stop :: rest) :=
      names_reads.complete ⟨hnames, admitted_true⟩ ⟨trivial, by simp [hrb]⟩
    have hs : stringLiteral (stop :: rest) = .ok ((module, stop.span), rest) :=
      stringLiteral_reads.complete ⟨stop, rfl, hstop, rfl⟩ trivial
    simp only [List.cons_append, List.append_assoc, List.nil_append]
    rw [importLine, bind_of_eq_ok _ (expect_cons hstart _), bind_of_eq_ok _ (expect_cons hlb _),
      bind_of_eq_ok _ hn, bind_of_eq_ok _ (expect_cons hrb _),
      bind_of_eq_ok _ (expect_cons horigin _), bind_of_eq_ok _ hs]
    rfl

/-! ### Definitions -/

theorem define_eq_ok_iff {p q : Program} {d : Definition} {ts rest : List Token} :
    define p d ts = .ok (q, rest) ↔ p.get? d.name.name = none ∧ q = p.add d ∧ rest = ts := by
  rw [define]
  cases p.get? d.name.name with
  | none => simp [eq_comm]
  | some _ => simp

/-- Adding the definitions of a line succeeds exactly if all their names are new. -/
theorem foldlM_define_eq_ok_iff {p q : Program} {ds : List Definition} {ts rest : List Token} :
    ds.foldlM define p ts = .ok (q, rest) ↔
      p.Fresh ds ∧ q = ds.foldl Program.add p ∧ rest = ts := by
  induction ds generalizing p with
  | nil => simp [Program.fresh_nil, eq_comm]
  | cons d ds ih =>
    rw [List.foldlM_cons, bind_eq_ok_iff, Program.fresh_cons, List.foldl_cons]
    constructor
    · rintro ⟨p', mid, hd, hds⟩
      obtain ⟨hnew, rfl, rfl⟩ := define_eq_ok_iff.1 hd
      obtain ⟨hfresh, hq, hrest⟩ := ih.1 hds
      exact ⟨⟨hnew, hfresh⟩, hq, hrest⟩
    · rintro ⟨⟨hnew, hfresh⟩, hq, hrest⟩
      exact ⟨p.add d, ts, define_eq_ok_iff.2 ⟨hnew, rfl, rfl⟩, ih.2 ⟨hfresh, hq, hrest⟩⟩

/-- Adding definitions takes no tokens. -/
theorem define_apply (p : Program) (d : Definition) (ts : List Token) :
    define p d ts = (p.addAll [d]).map (·, ts) := by
  rw [define, Program.addAll]
  cases p.get? d.name.name <;> rfl

theorem foldlM_define_apply (p : Program) (ds : List Definition) (ts : List Token) :
    ds.foldlM define p ts = (p.addAll ds).map (·, ts) := by
  induction ds generalizing p with
  | nil => rfl
  | cons d ds ih =>
    rw [List.foldlM_cons, bind_apply, define_apply, p.addAll_cons d ds]
    cases p.addAll [d] with
    | error e => rfl
    | ok q => exact ih q

/-! ### Programs -/

/-- No line end is next where lines start. -/
theorem nextToken_lines {α : Type} {item : List Token → α → Prop} {ts rest : List Token}
    {as : List α} (h : Lines item ts as)
    (hh : ∀ {us a}, item us a → ∃ t vs, us = t :: vs ∧ t.kind ≠ .newline)
    (hr : (nextToken rest).kind ≠ .newline) : (nextToken (ts ++ rest)).kind ≠ .newline := by
  cases h with
  | nil => exact hr
  | cons h _ _ =>
    obtain ⟨t, vs, rfl, ht⟩ := hh h
    exact ht

theorem isImport_head {ts : List Token} {line : List Import} (h : IsImport ts line) :
    ∃ t us, ts = t :: us ∧ t.kind = .keyword .importKw := by
  obtain ⟨hs, -, -, -, -, -⟩ := h
  exact ⟨_, _, rfl, hs⟩

theorem isFunction_head {ts : List Token} {f : ScriptFunction} (h : IsFunction ts f) :
    ∃ t us, ts = t :: us ∧ t.kind = .keyword .funcKw := by
  obtain ⟨hs, -, -, -, -, -, -, -, -⟩ := h
  exact ⟨_, _, rfl, hs⟩

theorem imports_sound : ∀ {rounds : Nat} {p q : Program} {ts rest : List Token},
    imports rounds p ts = .ok (q, rest) →
      ∃ us lines, ts = us ++ rest ∧ Lines IsImport us lines ∧
        p.Fresh (lines.flatten.map .native) ∧
        q = (lines.flatten.map .native).foldl Program.add p := by
  intro rounds
  induction rounds with
  | zero =>
    intro p q ts rest h
    obtain ⟨rfl, rfl⟩ : p = q ∧ ts = rest := by simpa [imports] using h
    exact ⟨[], [], rfl, .nil, Program.fresh_nil p, rfl⟩
  | succ rounds ih =>
    intro p q ts rest h
    rw [imports, bind_of_eq_ok _ (sees_apply _ _)] at h
    split at h
    · obtain ⟨line, mid, hline, h⟩ := bind_eq_ok_iff.1 h
      obtain ⟨p', mid', hdefine, hrest⟩ := bind_eq_ok_iff.1 h
      rw [← List.foldlM_map] at hdefine
      obtain ⟨hfresh, rfl, rfl⟩ := foldlM_define_eq_ok_iff.1 hdefine
      rw [bind_of_eq_ok _ (skipNewlines_apply _)] at hrest
      obtain ⟨vs, lines, hvs, hlines, hfresh', rfl⟩ := ih hrest
      obtain ⟨nl, hnl, hn⟩ := exists_newlines mid'
      obtain ⟨us, rfl, hus⟩ := importLine_reads.sound hline trivial
      refine ⟨us ++ (nl ++ vs), line :: lines, ?_, .cons hus hn hlines, ?_, ?_⟩
      · rw [List.append_assoc, List.append_assoc, ← hvs, ← hnl]
      · rw [List.flatten_cons, List.map_append]
        exact Program.fresh_append.2 ⟨hfresh, hfresh'⟩
      · rw [List.flatten_cons, List.map_append, List.foldl_append]
    · obtain ⟨rfl, rfl⟩ : p = q ∧ ts = rest := by simpa using h
      exact ⟨[], [], rfl, .nil, Program.fresh_nil p, rfl⟩

theorem imports_of_lines {us rest : List Token} {lines : List (List Import)}
    (h : Lines IsImport us lines) (hr : (nextToken rest).kind ≠ .newline)
    (hi : (nextToken rest).kind ≠ .keyword .importKw) :
    ∀ {rounds : Nat} {p : Program}, us.length ≤ rounds →
      imports rounds p (us ++ rest) =
        (p.addAll (lines.flatten.map .native)).map (·, rest) := by
  induction h with
  | nil =>
    intro rounds p _
    cases rounds with
    | zero => rfl
    | succ rounds => simp [imports, bind_apply, hi, Program.addAll, Except.map]
  | @cons ts line nl vs lines hline hn hlines ih =>
    intro rounds p hlen
    obtain ⟨t, ts', hts, ht⟩ := isImport_head hline
    have hpos : 0 < ts.length := by simp [hts]
    simp only [List.length_append] at hlen
    obtain ⟨n, rfl⟩ := Nat.exists_eq_add_one_of_ne_zero (show rounds ≠ 0 by omega)
    have hsees : (nextToken (ts ++ (nl ++ (vs ++ rest)))).kind = .keyword .importKw := by
      rw [hts]
      exact ht
    have hread : importLine (ts ++ (nl ++ (vs ++ rest))) = .ok (line, nl ++ (vs ++ rest)) :=
      importLine_reads.complete hline trivial
    have hnext : (nextToken (vs ++ rest)).kind ≠ .newline := by
      refine nextToken_lines hlines (fun h => ?_) hr
      obtain ⟨t, us, rfl, ht⟩ := isImport_head h
      exact ⟨t, us, rfl, by simp [ht]⟩
    rw [List.append_assoc, List.append_assoc, imports, bind_of_eq_ok _ (sees_apply _ _),
      if_pos (decide_eq_true hsees), bind_of_eq_ok _ hread, ← List.foldlM_map, bind_apply,
      foldlM_define_apply, List.flatten_cons, List.map_append, Program.addAll_append]
    cases p.addAll (line.map .native) with
    | error e => rfl
    | ok q =>
      simp only [Except.map]
      rw [bind_of_eq_ok _ (skipNewlines_apply _), dropWhile_newlines hn hnext]
      exact ih (by omega)

/-- The functions are read up to the end. -/
theorem functions_sound (he : Reads expression EndsExpression (IsExpressionWithin n)) :
    ∀ {rounds : Nat} {p q : Program} {ts rest : List Token}, ts.length ≤ rounds →
      functions expression rounds p ts = .ok (q, rest) →
        (nextToken rest).kind = .endOfFile ∧ ∃ us fs, ts = us ++ rest ∧
          Lines IsFunction us fs ∧ (∀ f ∈ fs, Acceptable n f) ∧
          p.Fresh (fs.map .script) ∧ q = (fs.map .script).foldl Program.add p := by
  intro rounds
  induction rounds with
  | zero =>
    intro p q ts rest hlen h
    obtain rfl : ts = [] := List.eq_nil_of_length_eq_zero (Nat.le_zero.1 hlen)
    obtain ⟨rfl, rfl⟩ : p = q ∧ [] = rest := by simpa [functions] using h
    exact ⟨rfl, [], [], rfl, .nil, List.forall_mem_nil _, Program.fresh_nil p, rfl⟩
  | succ rounds ih =>
    intro p q ts rest hlen h
    rw [functions, bind_of_eq_ok _ (sees_apply _ _)] at h
    split at h
    · rename_i hend
      obtain ⟨rfl, rfl⟩ : p = q ∧ ts = rest := by simpa using h
      exact ⟨of_decide_eq_true hend, [], [], rfl, .nil, List.forall_mem_nil _,
        Program.fresh_nil p, rfl⟩
    · obtain ⟨f, mid, hf, h⟩ := bind_eq_ok_iff.1 h
      obtain ⟨p', mid', hdefine, hrest⟩ := bind_eq_ok_iff.1 h
      obtain ⟨hnew, rfl, rfl⟩ := define_eq_ok_iff.1 hdefine
      rw [bind_of_eq_ok _ (skipNewlines_apply _)] at hrest
      obtain ⟨nl, hnl, hn⟩ := exists_newlines mid'
      obtain ⟨us, rfl, hus, hacc⟩ := (scriptFunction_reads he).sound hf trivial
      obtain ⟨t, us', rfl, -⟩ := isFunction_head hus
      have hlen' := congrArg List.length hnl
      simp only [List.length_append, List.length_cons] at hlen hlen'
      obtain ⟨hend, vs, fs, hvs, hfs, haccs, hfresh, rfl⟩ := ih (by omega) hrest
      refine ⟨hend, t :: us' ++ (nl ++ vs), f :: fs, ?_, .cons hus hn hfs,
        List.forall_mem_cons.2 ⟨hacc, haccs⟩, Program.fresh_cons.2 ⟨hnew, hfresh⟩, rfl⟩
      rw [List.append_assoc, List.append_assoc, ← hvs, ← hnl]

theorem functions_of_lines (he : Reads expression EndsExpression (IsExpressionWithin n))
    {us rest : List Token} {fs : List ScriptFunction} (h : Lines IsFunction us fs)
    (hr : (nextToken rest).kind = .endOfFile) :
    ∀ {rounds : Nat} {p : Program}, us.length ≤ rounds → (∀ f ∈ fs, Acceptable n f) →
      functions expression rounds p (us ++ rest) =
        (p.addAll (fs.map .script)).map (·, rest) := by
  induction h with
  | nil =>
    intro rounds p _ _
    cases rounds with
    | zero => rfl
    | succ rounds => simp [functions, bind_apply, hr, Program.addAll, Except.map]
  | @cons ts f nl vs fs hf hn hfs ih =>
    intro rounds p hlen hacc
    obtain ⟨t, ts', hts, ht⟩ := isFunction_head hf
    obtain ⟨hacc, haccs⟩ := List.forall_mem_cons.1 hacc
    have hpos : 0 < ts.length := by simp [hts]
    simp only [List.length_append] at hlen
    obtain ⟨m, rfl⟩ := Nat.exists_eq_add_one_of_ne_zero (show rounds ≠ 0 by omega)
    have hsees : (nextToken (ts ++ (nl ++ (vs ++ rest)))).kind ≠ .endOfFile := by
      rw [hts, List.cons_append, nextToken_cons, ht]
      simp
    have hread : scriptFunction expression (ts ++ (nl ++ (vs ++ rest))) =
        .ok (f, nl ++ (vs ++ rest)) := (scriptFunction_reads he).complete ⟨hf, hacc⟩ trivial
    have hnext : (nextToken (vs ++ rest)).kind ≠ .newline := by
      refine nextToken_lines hfs (fun h => ?_) (by simp [hr])
      obtain ⟨t, us, rfl, ht⟩ := isFunction_head h
      exact ⟨t, us, rfl, by simp [ht]⟩
    rw [List.append_assoc, List.append_assoc, functions, bind_of_eq_ok _ (sees_apply _ _),
      if_neg (by simpa using hsees), bind_of_eq_ok _ hread, bind_apply, define_apply,
      List.map_cons, p.addAll_cons (.script f) (fs.map .script)]
    cases p.addAll [.script f] with
    | error e => rfl
    | ok q =>
      simp only [Except.map]
      rw [bind_of_eq_ok _ (skipNewlines_apply _), dropWhile_newlines hn hnext]
      exact ih (by omega) haccs

end Reader

/-- The definitions of a program, imports first. -/
def definitionsOf (imports : List Import) (functions : List ScriptFunction) : List Definition :=
  imports.map .native ++ functions.map .script

namespace Reader

variable {expression : Reader Expr} {n : Nat}

theorem program_sound (he : Reads expression EndsExpression (IsExpressionWithin n)) {q : Program}
    {ts rest : List Token} (h : program expression ts = .ok (q, rest)) :
    (nextToken rest).kind = .endOfFile ∧ ∃ us imports functions, ts = us ++ rest ∧
      IsProgram us imports functions ∧ (∀ f ∈ functions, Acceptable n f) ∧
      Program.Fresh ∅ (definitionsOf imports functions) ∧
      q = (definitionsOf imports functions).foldl Program.add ∅ := by
  obtain ⟨nl, hnl, hn⟩ := exists_newlines ts
  rw [program, bind_of_eq_ok _ (skipNewlines_apply ts), bind_of_eq_ok _ (tokensLeft_apply _)] at h
  obtain ⟨p, mid, hi, h⟩ := bind_eq_ok_iff.1 h
  obtain ⟨us, lines, hus, hlines, hfresh, rfl⟩ := imports_sound hi
  rw [bind_of_eq_ok _ (tokensLeft_apply mid)] at h
  obtain ⟨hend, vs, fs, rfl, hfs, hacc, hfresh', rfl⟩ := functions_sound he Nat.le.refl h
  refine ⟨hend, nl ++ (us ++ vs), lines.flatten, fs, ?_, .mk hn hlines hfs, hacc,
    Program.fresh_append.2 ⟨hfresh, hfresh'⟩, ?_⟩
  · rw [List.append_assoc, List.append_assoc, ← hus, ← hnl]
  · rw [definitionsOf, List.foldl_append]

/-- **A row of the grammar is read by adding its definitions in turn.** -/
theorem program_of_isProgram (he : Reads expression EndsExpression (IsExpressionWithin n))
    {us rest : List Token} {imports : List Import} {functions : List ScriptFunction}
    (h : IsProgram us imports functions) (hacc : ∀ f ∈ functions, Acceptable n f)
    (hr : (nextToken rest).kind = .endOfFile) :
    program expression (us ++ rest) =
      (Program.addAll ∅ (definitionsOf imports functions)).map (·, rest) := by
  obtain @⟨nl, us, vs, lines, fs, hn, hlines, hfs⟩ := h
  -- behind the imports, either a function starts or the end is reached
  have hfirst : ∀ k : Token.Kind, k ≠ .keyword .funcKw → k ≠ .endOfFile →
      (nextToken (vs ++ rest)).kind ≠ k := by
    intro k hfunc hend
    cases hfs with
    | nil =>
      rw [List.nil_append, hr]
      exact hend.symm
    | cons hf _ _ =>
      obtain ⟨t, ts, rfl, ht⟩ := isFunction_head hf
      rw [List.cons_append, List.cons_append, nextToken_cons, ht]
      exact hfunc.symm
  have hnewline : (nextToken (vs ++ rest)).kind ≠ .newline := hfirst _ (by simp) (by simp)
  have hnext : (nextToken (us ++ (vs ++ rest))).kind ≠ .newline := by
    refine nextToken_lines hlines (fun h => ?_) hnewline
    obtain ⟨t, us, rfl, ht⟩ := isImport_head h
    exact ⟨t, us, rfl, by simp [ht]⟩
  have himports := imports_of_lines (p := ∅) hlines hnewline (hfirst _ (by simp) (by simp))
    (show us.length ≤ (us ++ (vs ++ rest)).length by simp)
  rw [List.append_assoc, List.append_assoc, program, bind_of_eq_ok _ (skipNewlines_apply _),
    dropWhile_newlines hn hnext, bind_of_eq_ok _ (tokensLeft_apply _), bind_apply, himports,
    definitionsOf, Program.addAll_append]
  cases Program.addAll ∅ (lines.flatten.map .native) with
  | error e => rfl
  | ok p =>
    simp only [Except.map]
    rw [bind_of_eq_ok _ (tokensLeft_apply _)]
    exact functions_of_lines he hfs hr (show vs.length ≤ (vs ++ rest).length by simp) hacc

theorem program_complete (he : Reads expression EndsExpression (IsExpressionWithin n))
    {us rest : List Token} {imports : List Import} {functions : List ScriptFunction}
    (h : IsProgram us imports functions) (hacc : ∀ f ∈ functions, Acceptable n f)
    (hfresh : Program.Fresh ∅ (definitionsOf imports functions))
    (hr : (nextToken rest).kind = .endOfFile) :
    program expression (us ++ rest) =
      .ok ((definitionsOf imports functions).foldl Program.add ∅, rest) := by
  rw [program_of_isProgram he h hacc hr, Program.addAll_of_fresh hfresh]
  rfl

end Reader

/-! ### Up to the first mark of the end -/

/-- The tokens before the first mark of the end. -/
def upToEnd (ts : List Token) : List Token := ts.takeWhile fun t => t.kind ≠ .endOfFile

theorem upToEnd_append {us rest : List Token} (h : NoEnd us) :
    upToEnd (us ++ rest) = us ++ upToEnd rest :=
  List.takeWhile_append_of_pos fun t ht => decide_eq_true (h t ht)

theorem upToEnd_of_noEnd {us : List Token} (h : NoEnd us) : upToEnd us = us := by
  simpa [upToEnd] using @upToEnd_append us [] h

theorem upToEnd_of_end {ts : List Token} (h : (nextToken ts).kind = .endOfFile) :
    upToEnd ts = [] := by
  cases ts with
  | nil => rfl
  | cons t ts => exact List.takeWhile_cons_of_neg (by simpa using h)

/-- Marking the end changes nothing before the first mark. -/
theorem upToEnd_withEnd (ts : List Token) : upToEnd (withEnd ts) = upToEnd ts := by
  have happend : ∀ stop : Token, stop.kind = .endOfFile → upToEnd (ts ++ [stop]) = upToEnd ts := by
    intro stop hstop
    rw [upToEnd, upToEnd, List.takeWhile_append, List.takeWhile_cons_of_neg (by simpa using hstop),
      List.append_nil]
    split
    · rename_i h
      exact ((List.takeWhile_prefix _).eq_of_length h).symm
    · rfl
  rw [withEnd]
  split
  · rename_i hlast
    rw [List.getLast?_eq_none_iff.1 hlast]
    rfl
  · split
    · rfl
    · exact happend _ rfl

/-- Behind what comes before the first mark of the end, that mark is next. -/
theorem exists_withEnd (ts : List Token) :
    ∃ rest, withEnd ts = upToEnd ts ++ rest ∧ (nextToken rest).kind = .endOfFile := by
  refine ⟨(withEnd ts).dropWhile fun t => t.kind ≠ .endOfFile, ?_, ?_⟩
  · rw [← upToEnd_withEnd, upToEnd, List.takeWhile_append_dropWhile]
  · cases hrest : (withEnd ts).dropWhile fun t => t.kind ≠ .endOfFile with
    | nil => rfl
    | cons t rest =>
      have ht := List.head?_dropWhile_not (fun t : Token => decide (t.kind ≠ .endOfFile))
        (withEnd ts)
      rw [hrest] at ht
      simpa using ht

namespace Program

theorem ofTokens_eq_ok {ts : List Token} {p : Program} :
    ofTokens ts = .ok p ↔
      ∃ rest, Reader.program (.expression maxNesting) (withEnd ts) = .ok (p, rest) := by
  rw [ofTokens, StateT.run']
  cases Reader.program (.expression maxNesting) (withEnd ts) with
  | error e => simp [Functor.map, Except.map]
  | ok q => simp [Functor.map, Except.map, Prod.ext_iff]

/-- A program that is read is one of the grammar. -/
theorem exists_of_ofTokens {ts : List Token} {p : Program} (h : ofTokens ts = .ok p) :
    ∃ imports functions, IsProgram (upToEnd ts) imports functions ∧
      ((definitionsOf imports functions).map fun d => d.name.name).Nodup ∧
      (∀ f ∈ functions, Reader.Acceptable maxNesting f) ∧
      p.ConsistsOf (definitionsOf imports functions) := by
  obtain ⟨rest, h⟩ := ofTokens_eq_ok.1 h
  obtain ⟨hend, us, imports, functions, hus, hprogram, hacc, hfresh, rfl⟩ :=
    Reader.program_sound (Reader.expression_reads maxNesting) h
  have hupTo : upToEnd ts = us := by
    rw [← upToEnd_withEnd, hus, upToEnd_append hprogram.noEnd, upToEnd_of_end hend,
      List.append_nil]
  have hnodup := fresh_empty_iff.1 hfresh
  exact ⟨imports, functions, hupTo ▸ hprogram, hnodup, hacc, (consistsOf_iff hnodup).2 rfl⟩

/-- A row of the grammar that passes the checks on functions is read by adding its definitions. -/
theorem ofTokens_of_isProgram {ts : List Token} {imports : List Import}
    {functions : List ScriptFunction} (h : IsProgram (upToEnd ts) imports functions)
    (hacc : ∀ f ∈ functions, Reader.Acceptable maxNesting f) :
    ofTokens ts = addAll ∅ (definitionsOf imports functions) := by
  obtain ⟨rest, hrest, hend⟩ := exists_withEnd ts
  rw [ofTokens, StateT.run', hrest,
    Reader.program_of_isProgram (Reader.expression_reads maxNesting) h hacc hend]
  cases addAll ∅ (definitionsOf imports functions) <;> rfl

/-- **A program is read exactly from the rows of the grammar.** The row up to the first mark of the
end has to be a program of the grammar in which all definitions have different names, so have the
parameters of each function, and no expression nests too deep. The program that is read consists
of the definitions that the grammar sees. -/
theorem ofTokens_eq_ok_iff {ts : List Token} {p : Program} :
    ofTokens ts = .ok p ↔
      ∃ imports functions, IsProgram (upToEnd ts) imports functions ∧
        ((definitionsOf imports functions).map fun d => d.name.name).Nodup ∧
        (∀ f ∈ functions, (f.params.map Identifier.name).Nodup) ∧
        (∀ f ∈ functions, ∀ s ∈ f.body, s.value.nesting ≤ maxNesting) ∧
        p.ConsistsOf (definitionsOf imports functions) := by
  constructor
  · intro h
    obtain ⟨imports, functions, hprogram, hnodup, hacc, hp⟩ := exists_of_ofTokens h
    exact ⟨imports, functions, hprogram, hnodup, fun f hf => (hacc f hf).nodup,
      fun f hf => (hacc f hf).nesting_le, hp⟩
  · rintro ⟨imports, functions, hprogram, hnodup, hparams, hnesting, hp⟩
    obtain ⟨rest, hrest, hend⟩ := exists_withEnd ts
    refine ofTokens_eq_ok.2 ⟨rest, ?_⟩
    rw [hrest, (consistsOf_iff hnodup).1 hp]
    exact Reader.program_complete (Reader.expression_reads maxNesting) hprogram
      (fun f hf => ⟨hparams f hf, hnesting f hf⟩) (fresh_empty_iff.2 hnodup) hend

/-- All six operators on their levels, each with what follows it as its right operand. -/
theorem ofTokens_operators :
    let name (s : String) : Token := ⟨.identifier s, s, default⟩
    let symbol (s : Symbol) : Token := ⟨.symbol s, s.text, default⟩
    let before : List Token := [⟨.keyword .funcKw, "func", default⟩, name "main", symbol .lparen,
      symbol .rparen, symbol .lbrace, ⟨.newline, "\n", default⟩,
      ⟨.keyword .returnKw, "return", default⟩]
    let chain : List Token := [name "a", symbol .eqEq, name "b", symbol .bangEq, name "c",
      symbol .plus, name "d", symbol .minus, name "e", symbol .star, name "f", symbol .slash,
      name "g"]
    let operand (s : String) : Expr := .identifier s default
    let value : Expr :=
      .binary .equality (operand "a") .eq default
        (.binary .equality (operand "b") .notEq default
          (.binary .term (operand "c") .add default
            (.binary .term (operand "d") .sub default
              (.binary .factor (operand "e") .mul default
                (.binary .factor (operand "f") .div default (operand "g") default)
                default) default) default) default) default
    let f : ScriptFunction := ⟨⟨"main", default⟩, [], [.result value default], default⟩
    IsExpression chain value ∧
      ofTokens (before ++ (chain ++ [symbol .rbrace])) = .ok (add ∅ (.script f)) := by
  intro name symbol before chain operand value f
  have hoperand (s : String) : IsOperand IsExpression [name s] (operand s) :=
    .primary (@IsPrimary.identifier (name s) s rfl)
  have hvalue : IsExpression chain value :=
    .binary (t := symbol .eqEq) (hoperand "a") .eq <|
      .binary (t := symbol .bangEq) (hoperand "b") .notEq <|
        .binary (t := symbol .plus) (hoperand "c") .add <|
          .binary (t := symbol .minus) (hoperand "d") .sub <|
            .binary (t := symbol .star) (hoperand "e") .mul <|
              .binary (t := symbol .slash) (hoperand "f") .div (.operand (hoperand "g"))
  have hbody : IsBody (⟨.keyword .returnKw, "return", default⟩ :: chain) [.result value default] :=
    @IsBody.last [] _ _ nofun (.result rfl hvalue)
  have hfunction : IsFunction (before ++ (chain ++ [symbol .rbrace])) f :=
    @IsFunction.mk _ [name "main"] _ _ [] _ _ _ _ (_ :: chain) _ (symbol .rbrace) rfl
      ⟨"main", rfl⟩ rfl .none rfl rfl rfl hbody rfl
  have hprogram : IsProgram (before ++ (chain ++ [symbol .rbrace])) [] [f] :=
    @IsProgram.mk [] [] _ [] _ nofun .nil (@Lines.cons _ _ _ _ [] [] _ hfunction nofun .nil)
  refine ⟨hvalue, ofTokens_eq_ok_iff.2 ⟨[], [f], hprogram, by decide, ?_, ?_, ?_⟩⟩
  · simp [f]
  · simp [f, value, operand, Stmt.value, Expr.nesting, maxNesting]
  · exact .refl _

end Program

end Scriptlet
