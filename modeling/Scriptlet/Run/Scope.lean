import Scriptlet.Dictionary
import Scriptlet.Value.Basic

/-!
# Scopes

The variables of one function call. A name is bound at most once, whatever its value, and there is
no outer scope to fall back on.
-/

namespace Scriptlet

/-- The variables of a call. -/
structure Scope where
  bindings : Dictionary Value

namespace Scope

instance : EmptyCollection Scope := ⟨⟨∅⟩⟩

instance : Inhabited Scope := ⟨∅⟩

def get? (s : Scope) (name : String) : Option Value := s.bindings.get? name

/-- Binds a name, unless it is bound already. -/
def declare? (s : Scope) (name : String) (value : Value) : Option Scope :=
  if s.bindings.contains name then none else some ⟨s.bindings.insert name value⟩

def size (s : Scope) : Nat := s.bindings.size

def isEmpty (s : Scope) : Bool := s.bindings.isEmpty

/-- A new name is bound, and what was bound stays as it was. -/
theorem get?_of_declare? {s t : Scope} {name : String} {value : Value}
    (h : s.declare? name value = some t) (x : String) :
    t.get? x = if x = name then some value else s.get? x := by
  unfold declare? at h
  split at h
  · simp at h
  · obtain rfl := Option.some.inj h
    exact Dictionary.get?_insert s.bindings name value x

/-- A name can be bound exactly if it is not bound yet. -/
theorem declare?_eq_none_iff {s : Scope} {name : String} {value : Value} :
    s.declare? name value = none ↔ (s.get? name).isSome := by
  unfold declare?
  split <;> simp_all [Dictionary.contains, get?]

end Scope

end Scriptlet
