import Scriptlet.Dictionary
import Scriptlet.Text.Quoted
import Scriptlet.Value.Basic

/-!
# Native functions

A host offers functions to scripts, grouped into modules. A native function has a fixed list of
parameters; when it runs it may read and change the state `σ` of the host, and it either answers
with a value or fails with a message. It is only run on as many arguments as it has parameters.
-/

namespace Scriptlet

variable {σ : Type}

/-- A function of the host. -/
structure NativeFunction (σ : Type) where
  params : List String
  /-- What the function does to the host, and its answer or the message it fails with. -/
  call : List Value → σ → Except String Value × σ

namespace NativeFunction

def arity (f : NativeFunction σ) : Nat := f.params.length

/-- A native function by its parameters; what it does cannot be shown. -/
def text (f : NativeFunction σ) : String :=
  "NativeFunction \x7b params: [" ++ String.intercalate ", " (f.params.map quoted) ++ "], .. \x7d"

end NativeFunction

/-- A named group of native functions. -/
structure NativeModule (σ : Type) where
  name : String
  functions : Dictionary (NativeFunction σ)

namespace NativeModule

/-- A module without functions. -/
def named (name : String) : NativeModule σ := ⟨name, ∅⟩

/-- Adds a function, in place of one of that name. -/
def withFunction (m : NativeModule σ) (name : String) (f : NativeFunction σ) : NativeModule σ :=
  { m with functions := m.functions.insert name f }

def get? (m : NativeModule σ) (name : String) : Option (NativeFunction σ) := m.functions.get? name

end NativeModule

/-- The modules of a host, by their names. -/
structure Registry (σ : Type) where
  modules : Dictionary (NativeModule σ)

namespace Registry

/-- A registry without modules. -/
def empty : Registry σ := ⟨∅⟩

instance : Inhabited (Registry σ) := ⟨empty⟩

/-- Adds a module, in place of one of its name. -/
def withModule (r : Registry σ) (m : NativeModule σ) : Registry σ := ⟨r.modules.insert m.name m⟩

def module? (r : Registry σ) (name : String) : Option (NativeModule σ) := r.modules.get? name

def size (r : Registry σ) : Nat := r.modules.size

def isEmpty (r : Registry σ) : Bool := r.modules.isEmpty

end Registry

end Scriptlet
