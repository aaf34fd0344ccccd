import Scriptlet.Native.Registry

/-!
# A host to try scripts on

A small host whose functions log, count, compare, greet, show and fail. Its state is the lines
logged so far and a count of calls for each function that counts. `Host.registry` builds the
modules of a host from a description of their functions.
-/

namespace Scriptlet

/-- What a function of the host does. -/
inductive Behaviour
  /-- Logs its arguments. -/
  | log
  /-- Gives the text of its arguments. -/
  | text
  /-- Gives its first argument, or nothing. -/
  | id
  /-- Names the kind of its first argument. -/
  | kind
  /-- Counts its calls. -/
  | counter
  /-- Gives the larger of two numbers. -/
  | max
  /-- Greets by name. -/
  | greet
  /-- Fails with a message before the text of its arguments. -/
  | fail (message : String)
deriving DecidableEq

/-- The state of the host: the lines logged, and the calls counted by module and function. -/
structure Host where
  log : Array String
  counts : Dictionary (Dictionary Nat)

namespace Host

/-- A host before any call. -/
def initial : Host := ⟨#[], ∅⟩

instance : Inhabited Host := ⟨initial⟩

def addLine (h : Host) (line : String) : Host := { h with log := h.log.push line }

/-- One more call of a function, and how many that makes. -/
def countCall (h : Host) (module function : String) : Nat × Host :=
  let calls := (h.counts.get? module).getD ∅
  let n := (calls.get? function).getD 0 + 1
  (n, { h with counts := h.counts.insert module (calls.insert function n) })

end Host

/-- The texts of the arguments of a call, with spaces between them. -/
def argumentText (args : List Value) : String := String.intercalate " " (args.map Value.text)

namespace Behaviour

/-- What a call of a function with this behaviour does. -/
def call (b : Behaviour) (module function : String) (args : List Value) (h : Host) :
    Except String Value × Host :=
  match b, args with
  | .log, _ => (.ok .void, h.addLine (argumentText args))
  | .text, _ => (.ok (.string (argumentText args)), h)
  | .id, a :: _ => (.ok a, h)
  | .id, [] => (.ok .void, h)
  | .kind, a :: _ => (.ok (.string a.kind.text), h)
  | .counter, _ =>
    let (n, h) := h.countCall module function
    (.ok (.number (Float.ofNat n)), h)
  | .max, [.number a, .number b] => (.ok (.number (if a < b then b else a)), h)
  | .max, _ => (.error "max expects two numbers", h)
  | .greet, [.string s] => (.ok (.string ("hello " ++ s)), h)
  | .greet, [a] => (.error ("greet expects a string, got " ++ a.kind.text), h)
  | .fail message, _ => (.error (message ++ argumentText args), h)
  | .kind, [] | .greet, _ => (.error "no such behaviour", h)

end Behaviour

/-- A function as a host is described: its name, its parameters and what it does. -/
structure HostFunction where
  name : String
  params : List String
  behaviour : Behaviour

namespace Host

/-- The modules of a host that is described by the functions of each module, later descriptions of
one name in place of earlier ones. -/
def registry (modules : List (String × List HostFunction)) : Registry Host :=
  modules.foldl (fun r m => r.withModule (m.2.foldl (addFunction m.1) (.named m.1))) .empty
where
  /-- Adds a described function to its module. -/
  addFunction (module : String) (m : NativeModule Host) (f : HostFunction) : NativeModule Host :=
    m.withFunction f.name ⟨f.params, f.behaviour.call module f.name⟩

/-- The description of a host with the usual modules. -/
def standard : List (String × List HostFunction) :=
  [("io", [⟨"print", ["message"], .log⟩, ⟨"print2", ["a", "b"], .log⟩, ⟨"flush", [], .log⟩]),
    ("math", [⟨"max", ["a", "b"], .max⟩, ⟨"next", [], .counter⟩]),
    ("text", [⟨"greet", ["name"], .greet⟩, ⟨"str", ["v"], .text⟩, ⟨"join", ["a", "b", "c"], .text⟩,
      ⟨"kind", ["v"], .kind⟩]),
    ("fs", [⟨"readFile", ["path"], .fail "no such file: "⟩]),
    ("core", [⟨"id", ["v"], .id⟩, ⟨"void", [], .id⟩]),
    ("", [⟨"anon", [], .counter⟩])]

end Host

end Scriptlet
