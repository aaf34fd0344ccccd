import Scriptlet.Program
import Scriptlet.Proofs.Dictionary

/-!
# Programs without spans

What is left of a program when it is forgotten where its parts stand. Two programs that are the same
without spans differ at most in where they were read from.

## Main definitions

* `Expr.spanless`, `Stmt.spanless`, `Definition.spanless`, `Program.spanless`

## Main results

* `Program.get?_spanless`, `Program.spanless_add` — definitions without spans are those of the
  program without spans
-/

namespace Scriptlet

def Identifier.spanless (x : Identifier) : Identifier := { x with span := default }

@[simp] theorem Identifier.name_spanless (x : Identifier) : x.spanless.name = x.name := rfl

namespace Expr

mutual

/-- An expression without the places of its parts. -/
def spanless : Expr → Expr
  | binary level lhs op _ rhs _ => binary level lhs.spanless op default rhs.spanless default
  | call callee args _ => call callee.spanless (spanlessAll args) default
  | number x _ => number x default
  | bool b _ => bool b default
  | string s _ => string s default
  | identifier name _ => identifier name default

def spanlessAll : List Expr → List Expr
  | [] => []
  | e :: es => e.spanless :: spanlessAll es

end

theorem spanlessAll_eq_map (es : List Expr) : spanlessAll es = es.map spanless := by
  induction es with
  | nil => rfl
  | cons e es ih => rw [spanlessAll, ih, List.map_cons]

end Expr

/-- A statement without the places of its parts. -/
def Stmt.spanless : Stmt → Stmt
  | declaration name value _ => declaration name.spanless value.spanless default
  | result value _ => result value.spanless default
  | expression value _ => expression value.spanless default

def ScriptFunction.spanless (f : ScriptFunction) : ScriptFunction :=
  ⟨f.name.spanless, f.params.map Identifier.spanless, f.body.map Stmt.spanless, default⟩

@[simp] theorem ScriptFunction.name_spanless (f : ScriptFunction) :
    f.spanless.name = f.name.spanless := rfl

@[simp] theorem ScriptFunction.params_spanless (f : ScriptFunction) :
    f.spanless.params = f.params.map Identifier.spanless := rfl

@[simp] theorem ScriptFunction.body_spanless (f : ScriptFunction) :
    f.spanless.body = f.body.map Stmt.spanless := rfl

@[simp] theorem ScriptFunction.arity_spanless (f : ScriptFunction) : f.spanless.arity = f.arity :=
  List.length_map _

def Import.spanless (i : Import) : Import := ⟨i.name.spanless, i.module, default⟩

/-- A definition without the places of its parts. -/
def Definition.spanless : Definition → Definition
  | script f => script f.spanless
  | native i => native i.spanless

@[simp] theorem Definition.name_spanless (d : Definition) : d.spanless.name = d.name.spanless := by
  cases d <;> rfl

namespace Program

/-- A program without the places of its parts. -/
def spanless (p : Program) : Program := ⟨p.definitions.mapNamed fun _ d => d.spanless⟩

theorem get?_spanless (p : Program) (name : String) :
    p.spanless.get? name = (p.get? name).map Definition.spanless :=
  Dictionary.get?_mapNamed ..

theorem spanless_add (p : Program) (d : Definition) :
    (p.add d).spanless = p.spanless.add d.spanless := by
  simp only [spanless, add, Dictionary.mapNamed_insert, Definition.name_spanless,
    Identifier.spanless]

end Program

end Scriptlet
