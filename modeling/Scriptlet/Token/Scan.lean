import Scriptlet.Diagnostic.Basic
import Scriptlet.Source.Place
import Scriptlet.Token.Lexeme

/-!
# Scanning

`scanFrom` reads a text from some place on: blanks are passed over, and every lexeme becomes a
token with its text and its span. The first lexeme that cannot be read ends the scan. What is read
comes off the front of the text, so the rest is shorter each time.
-/

namespace Scriptlet

/-- A fault of the text, and the stretch of it that is to blame. -/
structure ScanError where
  fault : LexicalFault
  span : Span
deriving DecidableEq

namespace LexicalFault

def code : LexicalFault → ErrorCode
  | unexpectedCharacter _ => .unexpectedCharacter
  | unterminatedString => .unterminatedString
  | invalidEscape _ => .invalidEscape

def message : LexicalFault → String
  | unexpectedCharacter c => "unexpected character '" ++ String.ofList (escapeChar c) ++ "'"
  | unterminatedString => "unterminated string literal"
  | invalidEscape c => "invalid escape sequence '\\" ++ c.toString ++ "'"

/-- What to write instead, where a symbol of two characters was broken off or a quote forgotten. -/
def suggestion? : LexicalFault → Option String
  | unexpectedCharacter '!' => some "use '!=' for inequality"
  | unexpectedCharacter '=' => some "use ':=' to declare a variable or '==' to compare"
  | unexpectedCharacter ':' => some "use ':=' to declare a variable"
  | unexpectedCharacter _ => none
  | unterminatedString => some "close the string with '\"' before the end of the line"
  | invalidEscape _ => none

end LexicalFault

/-- The token of a lexeme that starts at a place. -/
def Token.ofLexeme (place : Place) (kind : Token.Kind) (lexeme : List Char) : Token :=
  ⟨kind, String.ofList lexeme, place.span (byteCount lexeme)⟩

/-- The stretch of text that an error blames, if the lexeme `text` starts at a place: a character, a
literal up to where its line ends, or a backslash with the column after it. -/
def LexicalError.locate (e : LexicalError) (place : Place) (text : List Char) : ScanError where
  fault := e.fault
  span :=
    let reached := place.advanceAll (text.take e.offset)
    match e.fault with
    | .unexpectedCharacter _ => .point reached.position
    | .unterminatedString => ⟨place.position, reached.position⟩
    | .invalidEscape _ => ⟨reached.position, (reached.advance '\\').position⟩

/-- The tokens of a text that starts at a place, with the mark of the end. -/
def scanFrom (place : Place) (text : List Char) : Except ScanError (List Token) :=
  match text with
  | [] => .ok [.endOfFile (.point place.position)]
  | c :: cs =>
    if isBlank c then scanFrom (place.advance c) cs
    else
      match readLexeme c cs with
      | .error e => .error (e.locate place (c :: cs))
      | .ok (kind, length) =>
        let lexeme := c :: cs.take length
        match scanFrom (place.advanceAll lexeme) (cs.drop length) with
        | .error e => .error e
        | .ok tokens => .ok (.ofLexeme place kind lexeme :: tokens)
termination_by text.length
decreasing_by all_goals simp; try omega

/-- The tokens of a whole text. -/
def scan (text : String) : Except ScanError (List Token) := scanFrom .first text.toList

/-- A scan error told with the line it blames. -/
def ScanError.diagnostic (e : ScanError) (source : SourceFile) : Diagnostic :=
  { Diagnostic.located source e.fault.code e.fault.message e.span with
    suggestion := e.fault.suggestion? }

end Scriptlet
