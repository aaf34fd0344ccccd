import Scriptlet.Program
import Scriptlet.Run.Event

/-!
# Traces of calls

What a call of a script function tells, as a word of a grammar. A word starts with the start of the
call and ends with its return. Between them stand variables that get their values, calls of native
functions, and words one level deeper:

```
Call f d = invoke(f, d)  (declare | native call | Call g (d + 1))*  (return(f) | return void(f))
```

A call that fails tells the beginning of a word. Some calls are open then; `openCalls` finds them in
any row of events, by keeping a stack.

## Main definitions

* `Trace.IsCall`, `Trace.Inside` — the words of the grammar
* `Trace.CallFails`, `Trace.Unfinished` — what is told up to a failure, where some functions are
  active
* `openCalls` — the calls that have started and not returned

## Main results

* `Trace.Unfinished.openCalls` — the open calls are those of the active functions
* `Trace.CallFails.exists_isCall` — what a call tells that fails starts a word
* `Trace.NamesInnermost.of_split` — a return names the innermost open call
-/

namespace Scriptlet

/-- The calls open after an event, from the outermost to the innermost, by those open before it. -/
def Event.track (calls : List (String × Nat)) : Event → List (String × Nat)
  | invoke function depth => calls ++ [(function, depth)]
  | returned _ _ | returnedVoid _ => calls.dropLast
  | _ => calls

/-- The calls that are open after some events, from the outermost to the innermost. -/
def openCalls (es : List Event) : List (String × Nat) := es.foldl Event.track []

/-- The function that returns, in an event of a return. -/
def Event.returning? : Event → Option String
  | returned function _ | returnedVoid function => some function
  | _ => none

namespace Trace

/-! ### Words -/

/-- The event of a return with a value. Only `void` is returned without showing it. -/
def Closes (function : String) (v : Value) (e : Event) : Prop :=
  e = .returned function v ∨ e = .returnedVoid function ∧ v = .void

/-- What may be told inside a call at a depth. -/
inductive Inside : (depth : Nat) → List Event → Prop
  | nil {d} : Inside d []
  | declare {d name v es} (h : Inside d es) : Inside d (.declare name v :: es)
  | nativeCall {d module function es} (h : Inside d es) :
      Inside d (.nativeCall module function :: es)
  | call {d function v inside e es} (hi : Inside (d + 1) inside) (hc : Closes function v e)
      (h : Inside d es) : Inside d (.invoke function (d + 1) :: (inside ++ e :: es))

/-- What is told inside a call at a depth up to its return. -/
def UpToReturn (function : String) (depth : Nat) (v : Value) (es : List Event) : Prop :=
  ∃ inside e, es = inside ++ [e] ∧ Inside depth inside ∧ Closes function v e

/-- What is told inside a call at a depth up to a failure, where the given functions are active
there: each of them was called inside the one before it. -/
inductive Unfinished : (depth : Nat) → (active : List ScriptFunction) → List Event → Prop
  | here {d es} (h : Inside d es) : Unfinished d [] es
  | call {d es f active es'} (h : Inside d es) (hu : Unfinished (d + 1) active es') :
      Unfinished d (f :: active) (es ++ .invoke f.name.name (d + 1) :: es')

/-- What a call at a depth tells that ends with a value. -/
def IsCall (function : String) (depth : Nat) (v : Value) (es : List Event) : Prop :=
  ∃ rest, es = .invoke function depth :: rest ∧ UpToReturn function depth v rest

/-- What a call at a depth tells that fails, either before it has started or inside. -/
inductive CallFails (f : ScriptFunction) (depth : Nat) : List ScriptFunction → List Event → Prop
  | before : CallFails f depth [] []
  | inside {active es} (h : Unfinished depth active es) :
      CallFails f depth (f :: active) (.invoke f.name.name depth :: es)

theorem Inside.append {d : Nat} {es es' : List Event} (h : Inside d es) (h' : Inside d es') :
    Inside d (es ++ es') := by
  induction h with
  | nil => exact h'
  | declare _ ih => exact .declare (ih h')
  | nativeCall _ ih => exact .nativeCall (ih h')
  | call hi hc _ _ ih =>
    rw [List.cons_append, List.append_assoc, List.cons_append]
    exact .call hi hc (ih h')

theorem Unfinished.append {d : Nat} {active : List ScriptFunction} {es es' : List Event}
    (h : Inside d es) (h' : Unfinished d active es') : Unfinished d active (es ++ es') := by
  cases h' with
  | here h' => exact .here (h.append h')
  | call h' hu =>
    rw [← List.append_assoc]
    exact .call (h.append h') hu

theorem UpToReturn.append {function : String} {d : Nat} {v : Value} {es es' : List Event}
    (h : Inside d es) (h' : UpToReturn function d v es') :
    UpToReturn function d v (es ++ es') := by
  obtain ⟨inside, e, rfl, hi, hc⟩ := h'
  exact ⟨es ++ inside, e, (List.append_assoc _ _ _).symm, h.append hi, hc⟩

/-- A whole call may stand inside a call one level further out. -/
theorem IsCall.inside {function : String} {d : Nat} {v : Value} {es : List Event}
    (h : IsCall function (d + 1) v es) : Inside d es := by
  obtain ⟨_, rfl, inside, e, rfl, hi, hc⟩ := h
  exact .call hi hc .nil

/-- A call that fails leaves the calls around it unfinished. -/
theorem CallFails.unfinished {f : ScriptFunction} {d : Nat} {active : List ScriptFunction}
    {es : List Event} (h : CallFails f (d + 1) active es) : Unfinished d active es := by
  cases h with
  | before => exact .here .nil
  | inside h => exact .call .nil h

/-- What is told up to a failure can go on: the active functions can return. -/
theorem Unfinished.exists_completion {d : Nat} {active : List ScriptFunction} {es : List Event}
    (h : Unfinished d active es) : ∃ es', Inside d (es ++ es') := by
  induction h with
  | @here d es h => exact ⟨[], by rwa [List.append_nil]⟩
  | @call d es f active es' h _ ih =>
    obtain ⟨more, hmore⟩ := ih
    refine ⟨more ++ [.returnedVoid f.name.name], ?_⟩
    have hcall : Inside d (.invoke f.name.name (d + 1) :: (es' ++ more ++ [.returnedVoid _])) :=
      .call hmore (.inr ⟨rfl, rfl⟩) .nil
    simpa using h.append hcall

/-- What a call tells that fails is the beginning of what a call tells that does not. -/
theorem CallFails.exists_isCall {f : ScriptFunction} {d : Nat} {active : List ScriptFunction}
    {es : List Event} (h : CallFails f d active es) :
    ∃ v word, IsCall f.name.name d v word ∧ es <+: word := by
  have hreturn : Closes f.name.name .void (.returnedVoid f.name.name) := .inr ⟨rfl, rfl⟩
  cases h with
  | before => exact ⟨.void, _, ⟨_, rfl, [], _, rfl, .nil, hreturn⟩, List.nil_prefix⟩
  | @inside active es h =>
    obtain ⟨more, hmore⟩ := h.exists_completion
    refine ⟨.void, _, ⟨_, rfl, es ++ more, _, rfl, hmore, hreturn⟩, ?_⟩
    rw [List.append_assoc]
    exact List.prefix_append (.invoke f.name.name d :: es) _

/-! ### Open calls -/

/-- Nothing told inside a call changes which calls are open behind it. -/
theorem Inside.track {d : Nat} {es : List Event} (h : Inside d es) (calls : List (String × Nat)) :
    es.foldl Event.track calls = calls := by
  induction h generalizing calls with
  | nil => rfl
  | declare _ ih | nativeCall _ ih => exact ih calls
  | call _ hc _ ih₁ ih₂ =>
    rw [List.foldl_cons, List.foldl_append, ih₁, List.foldl_cons]
    rcases hc with rfl | ⟨rfl, -⟩ <;>
      rw [Event.track, Event.track, List.dropLast_concat, ih₂]

theorem Unfinished.track {d : Nat} {active : List ScriptFunction} {es : List Event}
    (h : Unfinished d active es) (calls : List (String × Nat)) :
    es.foldl Event.track calls =
      calls ++ (active.zipIdx (d + 1)).map fun (f, depth) => (f.name.name, depth) := by
  induction h generalizing calls with
  | here h => rw [h.track, List.zipIdx_nil, List.map_nil, List.append_nil]
  | call h _ ih =>
    rw [List.foldl_append, h.track, List.foldl_cons, ih, Event.track, List.zipIdx_cons,
      List.map_cons, List.append_assoc, List.singleton_append]

/-- **The open calls are those of the active functions**, at depths counted from one. -/
theorem Unfinished.openCalls {active : List ScriptFunction} {es : List Event}
    (h : Unfinished 0 active es) :
    openCalls es = (active.zipIdx 1).map fun (f, depth) => (f.name.name, depth) :=
  h.track []

/-- In these events, behind others that leave some calls open, every return names the innermost open
call. -/
def NamesInnermost : (calls : List (String × Nat)) → List Event → Prop
  | _, [] => True
  | calls, e :: es =>
    (∀ function ∈ e.returning?, calls.getLast?.map Prod.fst = some function) ∧
      NamesInnermost (e.track calls) es

theorem namesInnermost_append {calls : List (String × Nat)} {es es' : List Event} :
    NamesInnermost calls (es ++ es') ↔
      NamesInnermost calls es ∧ NamesInnermost (es.foldl Event.track calls) es' := by
  induction es generalizing calls with
  | nil => simp [NamesInnermost]
  | cons e es ih =>
    rw [List.cons_append, NamesInnermost, ih, NamesInnermost, List.foldl_cons, and_assoc]

/-- **A return names the innermost open call.** -/
theorem NamesInnermost.of_split {before after : List Event} {e : Event} {function : String}
    (h : NamesInnermost [] (before ++ e :: after)) (he : e.returning? = some function) :
    (Scriptlet.openCalls before).getLast?.map Prod.fst = some function :=
  (namesInnermost_append.1 h).2.1 function he

theorem Inside.namesInnermost {d : Nat} {es : List Event} (h : Inside d es)
    (calls : List (String × Nat)) : NamesInnermost calls es := by
  induction h generalizing calls with
  | nil => trivial
  | declare _ ih | nativeCall _ ih => exact ⟨by simp [Event.returning?], ih calls⟩
  | @call d f v inside e es hi hc _ ih₁ ih₂ =>
    refine ⟨by simp [Event.returning?], namesInnermost_append.2 ⟨ih₁ _, ?_, ?_⟩⟩
    · rw [hi.track, Event.track, List.getLast?_concat]
      rcases hc with rfl | ⟨rfl, -⟩ <;> simp [Event.returning?]
    · exact ih₂ _

theorem Unfinished.namesInnermost {d : Nat} {active : List ScriptFunction} {es : List Event}
    (h : Unfinished d active es) (calls : List (String × Nat)) : NamesInnermost calls es := by
  induction h generalizing calls with
  | here h => exact h.namesInnermost calls
  | call h _ ih =>
    exact namesInnermost_append.2 ⟨h.namesInnermost calls, by simp [Event.returning?], ih _⟩

end Trace

end Scriptlet
