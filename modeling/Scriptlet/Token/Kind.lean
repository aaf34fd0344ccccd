import Scriptlet.Decimal.Positional
import Scriptlet.Source.Span
import Scriptlet.Text.Quoted

/-!
# Tokens

A token is a kind, the text it was read from, and where that text stands. Line ends are tokens, as
they end statements; every row of tokens ends with one that marks the end of the file.
-/

namespace Scriptlet

/-- The reserved words. -/
inductive Keyword
  | funcKw
  | returnKw
  | trueKw
  | falseKw
  | importKw
  | fromKw
deriving DecidableEq, Inhabited

namespace Keyword

/-- All reserved words, in the order they are listed. -/
def all : List Keyword := [funcKw, returnKw, trueKw, falseKw, importKw, fromKw]

def text : Keyword → String
  | funcKw => "func"
  | returnKw => "return"
  | trueKw => "true"
  | falseKw => "false"
  | importKw => "import"
  | fromKw => "from"

/-- The reserved word with a given spelling. -/
def ofText? (s : String) : Option Keyword := all.find? fun k => k.text = s

theorem ofText?_text (k : Keyword) : ofText? k.text = some k := by cases k <;> decide

end Keyword

/-- The operators and punctuation marks. -/
inductive Symbol
  | plus
  | minus
  | star
  | slash
  | eqEq
  | bangEq
  | colonEq
  | lparen
  | rparen
  | lbrace
  | rbrace
  | comma
deriving DecidableEq, Inhabited

def Symbol.text : Symbol → String
  | plus => "+"
  | minus => "-"
  | star => "*"
  | slash => "/"
  | eqEq => "=="
  | bangEq => "!="
  | colonEq => ":="
  | lparen => "("
  | rparen => ")"
  | lbrace => "\x7b"
  | rbrace => "\x7d"
  | comma => ","

/-- What a token is, with what it stands for. -/
inductive Token.Kind
  | number (x : Float)
  /-- A string literal, by what it stands for. -/
  | string (s : String)
  | identifier (name : String)
  | keyword (k : Keyword)
  | symbol (s : Symbol)
  | newline
  | endOfFile
deriving DecidableEq, Inhabited

namespace Token.Kind

def isKeyword : Token.Kind → Bool
  | keyword _ => true
  | _ => false

/-- A kind of token by its content. -/
def text : Token.Kind → String
  | number x => numberText x
  | string s => quoted s
  | identifier name => name
  | keyword k => k.text
  | symbol s => s.text
  | newline => "newline"
  | endOfFile => "end of file"

/-- A kind of token as messages name it. -/
def describe (k : Token.Kind) : String :=
  match k with
  | newline | endOfFile => k.text
  | identifier _ => "identifier '" ++ k.text ++ "'"
  | number _ => "number " ++ k.text
  | string _ => "string " ++ k.text
  | keyword _ | symbol _ => "'" ++ k.text ++ "'"

end Token.Kind

/-- A kind of token, the text it was read from, and where that stands. -/
structure Token where
  kind : Token.Kind
  lexeme : String
  span : Span
deriving DecidableEq, Inhabited

/-- The mark that ends a row of tokens. -/
def Token.endOfFile (span : Span) : Token := ⟨.endOfFile, "", span⟩

end Scriptlet
