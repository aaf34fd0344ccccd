import Scriptlet.Proofs.Run.CallGraph
import Scriptlet.Proofs.Run.Limit

/-!
# How deep calls nest

A run that ends with a value has made every call in the live statements of every function that it
has entered. So it has followed all paths of calls, and the deepest call it tells of is as deep as
the longest path from the entry point is long. The other way round, a run only ever goes along paths
of calls, so it hits the limit only if there is a path longer than the limit.

## Main definitions

* `Made` — a call was made on the way, and ended with a value
* `Run.Confined` — starts of calls stay within given depths

## Main results

* `Interpreter.exists_invoke` — a successful call follows every path of calls
* `Interpreter.confined_invoke` — calls stay on paths of calls
* `Interpreter.depth_of_run` — the graph of calls decides how deep calls nest
-/

namespace Scriptlet

variable {σ α β : Type}

/-! ### Calls that were made -/

theorem Run.exists_of_bind_eq_ok {m : Run σ α} {f : α → Run σ β} {h h' : σ} {b : β}
    {es : List Event} (hb : (m >>= f) h = ⟨.ok b, h', es⟩) :
    ∃ a h₁ es₁ es₂, m h = ⟨.ok a, h₁, es₁⟩ ∧ f a h₁ = ⟨.ok b, h', es₂⟩ ∧ es = es₁ ++ es₂ := by
  rcases ho : m h with ⟨e | a, h₁, es₁⟩
  · rw [bind_of_error f ho] at hb
    cases hb
  · rw [bind_of_ok f ho] at hb
    rcases hf : f a h₁ with ⟨r, h₂, es₂⟩
    rw [hf] at hb
    cases hb
    exact ⟨a, h₁, es₁, es₂, rfl, hf, rfl⟩

/-- A call of a name was made and ended with a value, and what it told is among the events. -/
def Made (call : Caller σ) (callee : Identifier) (es : List Event) : Prop :=
  ∃ args span h v h' es', call callee args span h = ⟨.ok v, h', es'⟩ ∧ es' ⊆ es

theorem Made.mono {call : Caller σ} {callee : Identifier} {es es' : List Event}
    (h : Made call callee es) (hes : es ⊆ es') : Made call callee es' := by
  obtain ⟨args, span, h₀, v, h', es₀, ho, hsub⟩ := h
  exact ⟨args, span, h₀, v, h', es₀, ho, List.Subset.trans hsub hes⟩

section

variable {call : Caller σ} {s : Scope}

mutual

/-- An expression that has a value has made all its calls. -/
theorem Expr.made_of_eval : ∀ (e : Expr) {h h' : σ} {v : Value} {es : List Event},
    e.eval call s h = ⟨.ok v, h', es⟩ → ∀ c ∈ e.callees, Made call c es
  | .number _ _, _, _, _, _, _, c, hc | .bool _ _, _, _, _, _, _, c, hc
  | .string _ _, _, _, _, _, _, c, hc | .identifier _ _, _, _, _, _, _, c, hc => by
    rw [callees] at hc
    exact absurd hc List.not_mem_nil
  | .binary _ lhs op opSpan rhs _, h, h', v, es, ho, c, hc => by
    rw [eval] at ho
    obtain ⟨a, h₁, es₁, es', hl, hrest, rfl⟩ := Run.exists_of_bind_eq_ok ho
    obtain ⟨b, h₂, es₂, es₃, hr, -, rfl⟩ := Run.exists_of_bind_eq_ok hrest
    rw [callees] at hc
    rcases List.mem_append.1 hc with hc | hc
    · exact (made_of_eval lhs hl c hc).mono (List.subset_append_left _ _)
    · exact (made_of_eval rhs hr c hc).mono
        (List.Subset.trans (List.subset_append_left _ _) (List.subset_append_right _ _))
  | .call callee args span, h, h', v, es, ho, c, hc => by
    rw [eval] at ho
    obtain ⟨vs, h₁, es₁, es₂, hargs, hcall, rfl⟩ := Run.exists_of_bind_eq_ok ho
    rw [callees] at hc
    rcases List.mem_append.1 hc with hc | hc
    · exact (made_of_evalAll args hargs c hc).mono (List.subset_append_left _ _)
    · obtain rfl := List.mem_singleton.1 hc
      exact ⟨vs, span, h₁, v, h', es₂, hcall, List.subset_append_right _ _⟩

theorem Expr.made_of_evalAll : ∀ (as : List Expr) {h h' : σ} {vs : List Value} {es : List Event},
    evalAll call s as h = ⟨.ok vs, h', es⟩ → ∀ c ∈ calleesAll as, Made call c es
  | [], _, _, _, _, _, c, hc => by
    rw [calleesAll] at hc
    exact absurd hc List.not_mem_nil
  | a :: as, h, h', vs, es, ho, c, hc => by
    rw [evalAll] at ho
    obtain ⟨v, h₁, es₁, es', ha, hrest, rfl⟩ := Run.exists_of_bind_eq_ok ho
    obtain ⟨vs', h₂, es₂, es₃, has, -, rfl⟩ := Run.exists_of_bind_eq_ok hrest
    rw [calleesAll] at hc
    rcases List.mem_append.1 hc with hc | hc
    · exact (made_of_eval a ha c hc).mono (List.subset_append_left _ _)
    · exact (made_of_evalAll as has c hc).mono
        (List.Subset.trans (List.subset_append_left _ _) (List.subset_append_right _ _))

end

/-- Statements that were run to their end have made all calls of the live ones. -/
theorem made_of_runBody (function : String) (body : List Stmt) :
    ∀ {s : Scope} {h h' : σ} {v : Value} {es : List Event},
      runBody call function s body h = ⟨.ok v, h', es⟩ →
        ∀ c ∈ liveCallees body, Made call c es := by
  induction body with
  | nil =>
    intro _ _ _ _ _ _ c hc
    exact absurd hc List.not_mem_nil
  | cons stmt rest ih =>
    intro s h h' v es ho c hc
    cases stmt with
    | declaration name value span =>
      rw [runBody] at ho
      obtain ⟨a, h₁, es₁, es', ha, htell, rfl⟩ := Run.exists_of_bind_eq_ok ho
      obtain ⟨_, h₂, es₂, es₃, -, hbind, rfl⟩ := Run.exists_of_bind_eq_ok htell
      obtain ⟨s', h₃, es₄, es₅, -, hrest, rfl⟩ := Run.exists_of_bind_eq_ok hbind
      rw [liveCallees] at hc
      rcases List.mem_append.1 hc with hc | hc
      · exact (Expr.made_of_eval value ha c hc).mono (List.subset_append_left _ _)
      · refine (ih hrest c hc).mono fun e he => ?_
        simp only [List.mem_append]
        exact .inr (.inr (.inr he))
    | result value span =>
      rw [runBody] at ho
      obtain ⟨a, h₁, es₁, es', ha, -, rfl⟩ := Run.exists_of_bind_eq_ok ho
      exact (Expr.made_of_eval value ha c hc).mono (List.subset_append_left _ _)
    | expression value span =>
      rw [runBody] at ho
      obtain ⟨a, h₁, es₁, es', ha, hrest, rfl⟩ := Run.exists_of_bind_eq_ok ho
      rw [liveCallees] at hc
      rcases List.mem_append.1 hc with hc | hc
      · exact (Expr.made_of_eval value ha c hc).mono (List.subset_append_left _ _)
      · exact (ih hrest c hc).mono (List.subset_append_right _ _)

/-- A call that ended with a value has told its start and made all live calls of its function. -/
theorem made_of_enter {depth : Nat} {f : ScriptFunction} {args : List Value} {span : Span}
    {h h' : σ} {v : Value} {es : List Event}
    (ho : enter call depth f args span h = ⟨.ok v, h', es⟩) :
    .invoke f.name.name depth ∈ es ∧ ∀ c ∈ liveCallees f.body, Made call c es := by
  rw [enter] at ho
  obtain ⟨_, h₁, es₁, es', -, htell, rfl⟩ := Run.exists_of_bind_eq_ok ho
  obtain ⟨_, h₂, es₂, es'', ht, hbind, rfl⟩ := Run.exists_of_bind_eq_ok htell
  obtain ⟨s, h₃, es₃, es₄, -, hbody, rfl⟩ := Run.exists_of_bind_eq_ok hbind
  cases ht
  refine ⟨by simp, fun c hc => (made_of_runBody f.name.name f.body hbody c hc).mono fun e he => ?_⟩
  simp only [List.mem_append]
  exact .inr (.inr (.inr he))

end

namespace Interpreter

variable (it : Interpreter σ)

/-- **A call that ends with a value follows every path of calls** from its function: paths fit into
the budget, and the end of each one has started at its depth. -/
theorem exists_invoke {budget : Nat} : ∀ {f : ScriptFunction} {args : List Value} {span : Span}
    {h h' : σ} {v : Value} {es : List Event}, budget ≤ it.config.maxCallDepth.toNat →
      it.invoke budget f args span h = ⟨.ok v, h', es⟩ → ∀ n ∈ it.program.pathLengths f,
        n ≤ budget ∧ ∃ g, .invoke g (it.config.maxCallDepth.toNat - budget + n) ∈ es := by
  induction budget with
  | zero =>
    intro f args span h h' v es _ ho
    rw [invoke_zero] at ho
    obtain ⟨_, _, _, _, -, hfail, -⟩ := Run.exists_of_bind_eq_ok ho
    cases hfail
  | succ budget ih =>
    intro f args span h h' v es hmax ho n hn
    rw [invoke_succ] at ho
    obtain ⟨hstart, hmade⟩ := made_of_enter ho
    rcases Program.pathLengths_cases hn with rfl | ⟨g, m, ⟨c, hc, hg⟩, hm, rfl⟩
    · refine ⟨Nat.succ_pos budget, f.name.name, ?_⟩
      rwa [show it.config.maxCallDepth.toNat - (budget + 1) + 1 =
        it.config.maxCallDepth.toNat - budget by omega]
    · obtain ⟨args', span', h₁, v', h₂, es', ho', hsub⟩ := hmade c hc
      rw [callAt, hg] at ho'
      obtain ⟨hle, g', hg'⟩ := ih (by omega) ho' m hm
      refine ⟨Nat.succ_le_succ hle, g', hsub ?_⟩
      rwa [show it.config.maxCallDepth.toNat - (budget + 1) + (m + 1) =
        it.config.maxCallDepth.toNat - budget + m by omega]

end Interpreter

/-! ### Calls that may be made -/

/-- Calls start only at the depths of `D`, and the limit is hit only if `L` is true. -/
def Run.Confined (D : Nat → Prop) (L : Prop) (m : Run σ α) : Prop :=
  ∀ h, (∀ g d, .invoke g d ∈ (m h).events → D d) ∧ ((m h).Exceeded → L)

namespace Run.Confined

variable {D D' : Nat → Prop} {L L' : Prop}

theorem mono {m : Run σ α} (hm : m.Confined D L) (hD : ∀ d, D d → D' d) (hL : L → L') :
    m.Confined D' L' :=
  fun h => ⟨fun g d hd => hD d ((hm h).1 g d hd), fun hx => hL ((hm h).2 hx)⟩

theorem bind {m : Run σ α} {f : α → Run σ β} (hm : m.Confined D L)
    (hf : ∀ a, (f a).Confined D L) : (m >>= f).Confined D L := by
  intro h
  obtain ⟨hd, hl⟩ := hm h
  rcases ho : m h with ⟨e | a, h₁, es⟩
  · rw [ho] at hd hl
    rw [bind_of_error f ho]
    refine ⟨hd, fun hx => hl ?_⟩
    rw [Outcome.exceeded_error_iff] at hx ⊢
    exact hx
  · rw [ho] at hd
    rw [bind_of_ok f ho]
    obtain ⟨hd', hl'⟩ := hf a h₁
    refine ⟨fun g d hg => ?_, hl'⟩
    rcases List.mem_append.1 hg with hg | hg
    · exact hd g d hg
    · exact hd' g d hg

theorem pure (a : α) : (Pure.pure a : Run σ α).Confined D L :=
  fun _ => ⟨fun _ _ hg => absurd hg List.not_mem_nil, fun hx => absurd hx Outcome.not_exceeded_ok⟩

theorem fail {e : RuntimeError} (he : e.isCallDepth = false) :
    (Run.fail e : Run σ α).Confined D L := by
  refine fun h => ⟨fun _ _ hg => absurd hg List.not_mem_nil, fun hx => ?_⟩
  obtain ⟨name, limit, span, rfl⟩ := Outcome.exceeded_error_iff.1 hx
  cases he

theorem checkArity (name : String) (expected actual : Nat) (span : Span) :
    (Scriptlet.checkArity name expected actual span : Run σ Unit).Confined D L := by
  rw [Scriptlet.checkArity]
  split
  · exact .pure ()
  · exact .fail rfl

theorem tell {e : Event} (he : ∀ g d, e = .invoke g d → D d) :
    (Run.tell e : Run σ Unit).Confined D L :=
  fun _ => ⟨fun g d hg => he g d (List.mem_singleton.1 hg).symm,
    fun hx => absurd hx Outcome.not_exceeded_ok⟩

theorem onHost {action : σ → Except String α × σ} {error : String → RuntimeError}
    (he : ∀ message, (error message).isCallDepth = false) :
    (Run.onHost action error).Confined D L := by
  intro h
  refine ⟨fun g d hg => ?_, fun hx => ?_⟩
  · rw [onHost_apply] at hg
    exact absurd hg List.not_mem_nil
  · obtain ⟨name, limit, span, hr⟩ := hx
    obtain ⟨message, hm⟩ := Run.error_of_onHost hr
    have hdepth := he message
    rw [← hm] at hdepth
    cases hdepth

end Run.Confined

/-- The comparison of runs with nothing, for those that stay within depths. -/
def confined (σ : Type) (D : Nat → Prop) (L : Prop) : Simulation σ σ where
  Values := Eq
  Runs _ m _ := m.Confined D L
  refl _ := rfl
  pure _ := .pure _
  bind hQ hm hf := hm.bind fun a => hf a a (hQ a)
  fail he := .fail he
  operate := by
    rintro a _ b _ op span rfl rfl
    rw [Value.applyAt]
    cases Value.operate? op a b with
    | none => exact Run.Confined.fail rfl
    | some v => exact Run.Confined.pure v
  declare _ _ := .tell (by simp)
  returned _ _ := .tell (by simp)
  returnedVoid _ := .tell (by simp)

theorem confined_callNative (natives : Registry σ) (D : Nat → Prop) (L : Prop) :
    (confined σ D L).Natives natives natives := by
  refine @Simulation.natives _ _ (confined σ D L) _ _ rfl (fun _ _ => .tell (by simp)) ?_
  intro i f f' _ _ args args' span _
  exact Run.Confined.onHost fun _ => rfl

namespace Interpreter

variable (it : Interpreter σ)

/-- **Calls stay on paths of calls**: they start at most as deep as a path leads, and the limit is
hit only if a path is longer than the budget. -/
theorem confined_invoke {budget : Nat} : ∀ (f : ScriptFunction) (args : List Value) (span : Span),
    budget ≤ it.config.maxCallDepth.toNat →
      (it.invoke budget f args span).Confined
        (fun d => ∃ n ∈ it.program.pathLengths f,
          d = it.config.maxCallDepth.toNat - budget + n)
        (budget + 1 ∈ it.program.pathLengths f) := by
  induction budget with
  | zero =>
    intro f args span _
    rw [invoke_zero]
    refine Run.Confined.bind (.checkArity _ _ _ _) fun _ h => ?_
    exact ⟨fun _ _ hg => absurd hg List.not_mem_nil,
      fun _ => Program.one_mem_pathLengths it.program f⟩
  | succ budget ih =>
    intro f args span hmax
    rw [invoke_succ]
    refine @Simulation.enter _ _ (confined σ _ _) (it.callAt budget) (it.callAt budget) f _
      (it.config.maxCallDepth.toNat - budget) (.tell ?_) ?_ _ _ (Simulation.values_refl args) span
    · rintro _ _ ⟨⟩
      exact ⟨1, Program.one_mem_pathLengths it.program f, by omega⟩
    · intro c hc args _ span hargs
      rw [callAt]
      cases hd : it.program.get? c.name with
      | none => exact Run.Confined.fail rfl
      | some d =>
        cases d with
        | native i => exact confined_callNative it.natives _ _ i span hargs
        | script g =>
          have hfg : it.program.Calls f g := ⟨c, hc, hd⟩
          refine (ih g args span (by omega)).mono ?_ fun hg => Program.succ_mem_pathLengths hfg hg
          rintro _ ⟨n, hn, rfl⟩
          exact ⟨n + 1, Program.succ_mem_pathLengths hfg hn, by omega⟩

/-- **The graph of calls decides how deep calls nest.** Take a program with a function of the script
without parameters as its entry point.

If a run ends with a value, then no function that the entry point reaches comes back to itself, the
longest path of calls fits into the limit, and the deepest call is as deep as that path is long. The
other way round, if no function comes back to itself and the longest path fits into the limit, then
no run hits the limit, whatever the host does. -/
theorem depth_of_run {f : ScriptFunction}
    (hf : it.program.get? it.config.entryPoint = some (.script f)) (hparams : f.params = []) :
    (∀ h v, (it.run h).result = .ok v → it.program.Acyclic f ∧
      ∃ n, IsGreatest (it.program.pathLengths f) n ∧ n ≤ it.config.maxCallDepth.toNat ∧
        IsGreatest {d | ∃ g, Event.invoke g d ∈ (it.run h).events} n) ∧
    (it.program.Acyclic f → ∃ n, IsGreatest (it.program.pathLengths f) n ∧
      (n ≤ it.config.maxCallDepth.toNat → ∀ h, ¬ (it.run h).Exceeded)) := by
  have hrun : it.run = it.invoke it.config.maxCallDepth.toNat f [] f.name.span := by
    rw [run, hf]
    simp only [hparams, List.isEmpty_nil, if_pos]
  have hconfined := it.confined_invoke f [] f.name.span Nat.le.refl
  rw [hrun]
  refine ⟨fun h v hv => ?_, fun hacyclic => ?_⟩
  · rcases ho : it.invoke it.config.maxCallDepth.toNat f [] f.name.span h with ⟨r, h', es⟩
    have hdepths := (hconfined h).1
    rw [ho] at hv hdepths
    obtain rfl : r = .ok v := hv
    have hpaths := it.exists_invoke Nat.le.refl ho
    rw [Nat.sub_self] at hdepths hpaths
    simp only [Nat.zero_add] at hdepths hpaths
    have hacyclic := Program.acyclic_of_bddAbove
      ⟨it.config.maxCallDepth.toNat, fun n hn => (hpaths n hn).1⟩
    obtain ⟨n, hn⟩ := hacyclic.exists_isGreatest
    refine ⟨hacyclic, n, hn, (hpaths n hn.1).1, (hpaths n hn.1).2, ?_⟩
    rintro d ⟨g, hg⟩
    obtain ⟨m, hm, rfl⟩ := hdepths g d hg
    exact hn.2 hm
  · obtain ⟨n, hn⟩ := hacyclic.exists_isGreatest
    refine ⟨n, hn, fun hle h hx => ?_⟩
    have hlong := hn.2 ((hconfined h).2 hx)
    omega

/-- The small script ends with a value, so its calls nest as deep as its longest path is long. -/
theorem depth_of_run_small :
    let it : Interpreter Unit := ⟨.small, .echo, default⟩
    ∃ f n, it.program.get? "main" = some (.script f) ∧ it.program.Acyclic f ∧
      IsGreatest (it.program.pathLengths f) n ∧
      IsGreatest {d | ∃ g, Event.invoke g d ∈ (it.run ()).events} n := by
  intro it
  obtain ⟨hacyclic, n, hn, -, hdeepest⟩ := (it.depth_of_run rfl rfl).1 () _ rfl
  exact ⟨_, n, rfl, hacyclic, hn, hdeepest⟩

end Interpreter

end Scriptlet
