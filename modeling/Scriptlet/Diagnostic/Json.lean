import Scriptlet.Diagnostic.Basic
import Scriptlet.Json.Record

/-!
# Diagnostics as JSON

A diagnostic is an object in which the four numbers of its span stand among the other members.
When it is read, whatever else the object holds has to be sound, as all of it is looked through
for these numbers.
-/

namespace Scriptlet

open Json (Fields)

namespace Span

def fieldNames : List String := ["line", "column", "end_line", "end_column"]

/-- The members that tell a span. -/
def members (s : Span) : List (String × Json) :=
  [("line", .nat s.start.line.toNat), ("column", .nat s.start.column.toNat),
    ("end_line", .nat s.stop.line.toNat), ("end_column", .nat s.stop.column.toNat)]

def toJson (s : Span) : Json := .object s.members

def ofFields? (fs : Fields) : Option Span := do
  let line ← fs.required? "line" Json.uint32?
  let column ← fs.required? "column" Json.uint32?
  let endLine ← fs.required? "end_line" Json.uint32?
  let endColumn ← fs.required? "end_column" Json.uint32?
  return ⟨⟨line, column⟩, ⟨endLine, endColumn⟩⟩

def ofJson? (j : Json) : Option Span := do
  ofFields? (← j.recordFields? fieldNames)

end Span

namespace ErrorCode

def toJson (c : ErrorCode) : Json := .nat c.number.toNat

def ofJson? (j : Json) : Option ErrorCode := j.uint16?.map .mk

end ErrorCode

namespace Category

/-- A category as JSON names it. -/
def name : Category → String
  | entryPoint => "entry_point"
  | c => c.text

def all : List Category := [lex, parse, binding, resolution, arity, type, entryPoint, runtime]

def toJson (c : Category) : Json := .string c.name

def ofJson? (j : Json) : Option Category := j.choice? (all.map fun c => (c.name, c))

end Category

namespace Severity

def name : Severity → String
  | error => "error"

def toJson (s : Severity) : Json := .string s.name

def ofJson? (j : Json) : Option Severity := j.choice? [("error", error)]

end Severity

namespace Diagnostic

def fieldNames : List String :=
  ["file", "code", "severity", "category", "message", "line", "column", "end_line", "end_column",
    "source_line", "suggestion"]

def toJson (d : Diagnostic) : Json :=
  .object <|
    [("file", .string d.file), ("code", d.code.toJson), ("severity", d.severity.toJson),
        ("category", d.category.toJson), ("message", .string d.message)]
      ++ d.span.members ++ [("source_line", .string d.sourceLine)]
      ++ d.suggestion.toList.map fun s => ("suggestion", .string s)

/-- Reads a diagnostic. Members with unknown names must be sound, with at most `depth` arrays and
objects inside one another. -/
def ofJson? (depth : Nat) (j : Json) : Option Diagnostic := do
  let fs ← j.objectFields? fieldNames
  let file ← fs.required? "file" Json.string?
  let code ← fs.required? "code" ErrorCode.ofJson?
  let severity ← fs.required? "severity" Severity.ofJson?
  let category ← fs.required? "category" Category.ofJson?
  let message ← fs.required? "message" Json.string?
  let span ← Span.ofFields? fs
  let sourceLine ← fs.required? "source_line" Json.string?
  let suggestion ← fs.defaulted? "suggestion" none (Json.orNull? Json.string?)
  if othersSound j then
    return ⟨file, code, severity, category, message, span, sourceLine, suggestion⟩
  else none
where
  /-- Are all members with unknown names sound? -/
  othersSound : Json → Bool
    | .object members => members.all fun m => m.1 ∈ fieldNames || m.2.sound depth
    | _ => false

end Diagnostic

end Scriptlet
