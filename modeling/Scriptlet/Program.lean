import Scriptlet.Dictionary
import Scriptlet.Expr

/-!
# Programs

A program gives definitions to names. A definition is a function of the script, with its
parameters and statements, or an import, which only says in which module of the host the function
is found.
-/

namespace Scriptlet

/-- One line of a function body. -/
inductive Stmt
  /-- Binds a new name: `name := value`. -/
  | declaration (name : Identifier) (value : Expr) (span : Span)
  /-- Ends the call with a value: `return value`. -/
  | result (value : Expr) (span : Span)
  /-- An expression whose value is not used. -/
  | expression (value : Expr) (span : Span)
deriving Inhabited

namespace Stmt

def span : Stmt → Span
  | declaration _ _ s | result _ s | expression _ s => s

def text : Stmt → String
  | declaration name value _ => name.name ++ " := " ++ value.text
  | result value _ => "return " ++ value.text
  | expression value _ => value.text

end Stmt

/-- A function written in the script. -/
structure ScriptFunction where
  name : Identifier
  params : List Identifier
  body : List Stmt
  span : Span
deriving Inhabited

def ScriptFunction.arity (f : ScriptFunction) : Nat := f.params.length

/-- A name brought in from a module of the host. -/
structure Import where
  name : Identifier
  module : String
  span : Span
deriving DecidableEq, Inhabited

/-- What a name of a program stands for. -/
inductive Definition
  | script (f : ScriptFunction)
  | native (i : Import)
deriving Inhabited

namespace Definition

def name : Definition → Identifier
  | script f => f.name
  | native i => i.name

def span : Definition → Span
  | script f => f.span
  | native i => i.span

end Definition

/-- Definitions by name. In a program that was read from text, each stands under its own name. -/
structure Program where
  definitions : Dictionary Definition

namespace Program

instance : EmptyCollection Program := ⟨⟨∅⟩⟩

instance : Inhabited Program := ⟨∅⟩

def get? (p : Program) (name : String) : Option Definition := p.definitions.get? name

def contains (p : Program) (name : String) : Bool := p.definitions.contains name

def size (p : Program) : Nat := p.definitions.size

def isEmpty (p : Program) : Bool := p.definitions.isEmpty

/-- Adds a definition under its own name. -/
def add (p : Program) (d : Definition) : Program := ⟨p.definitions.insert d.name.name d⟩

/-- A program of definitions under names of their own, later ones in place of earlier ones. -/
def ofList (ds : List (String × Definition)) : Program := ⟨.ofList ds⟩

end Program

end Scriptlet
