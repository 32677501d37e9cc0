import Lox.Token.Segment
import Lox.Report

/-!
# Scanning

Scanning numbers the segments of a source by the line they end on and keeps the
tokens. Every bad segment is an error; a source with errors has no tokens. The
stream of a good source ends with an end token on the last line.
-/

namespace Lox

/-- Why a piece of source is bad. -/
inductive LexicalCause where
  /-- A character that starts no token. -/
  | unexpectedCharacter (rune : Rune)
  /-- A string that is still open at the end of the source. -/
  | unterminatedString
  deriving DecidableEq

/-- A bad piece of source and the line it ends on. -/
structure LexicalError where
  /-- What is wrong. -/
  cause : LexicalCause
  /-- The line on which the piece ends. -/
  line : Int
  deriving DecidableEq

namespace LexicalError

/-- The message of a lexical error. -/
def message (e : LexicalError) : Text :=
  match e.cause with
  | .unexpectedCharacter _ => utf8 "Unexpected character."
  | .unterminatedString => utf8 "Unterminated string."

/-- The code point that an error is about, or minus one. -/
def char (e : LexicalError) : Int :=
  match e.cause with
  | .unexpectedCharacter rune => rune.code
  | .unterminatedString => -1

/-- A lexical error as it is shown. -/
def report (e : LexicalError) : Report := .lexical e.char e.message e.line

end LexicalError

namespace Segment

/-- The token of a segment that ends on the given line. -/
def token? (line : Int) : Segment → Option Token
  | token kind lexeme literal => some ⟨kind, lexeme, literal, line⟩
  | _ => none

/-- The error of a segment that ends on the given line. -/
def error? (line : Int) : Segment → Option LexicalError
  | unexpected rune => some ⟨.unexpectedCharacter rune, line⟩
  | unterminated _ => some ⟨.unterminatedString, line⟩
  | _ => none

/-- The line on which a segment ends, by the line on which it starts. -/
def endLine (line : Int) (segment : Segment) : Int :=
  line + (Text.newlines segment.text : Nat)

/-- Segments with the lines they end on. -/
def numbered : Int → List Segment → List (Int × Segment)
  | _, [] => []
  | line, segment :: rest =>
    (segment.endLine line, segment) :: numbered (segment.endLine line) rest

end Segment

/-- The line of the end of a source. -/
def lastLine (source : Text) : Int := 1 + (Text.newlines source : Nat)

/-- The segments of a source with the lines they end on. -/
def numberedSegments (source : Text) : List (Int × Segment) :=
  Segment.numbered 1 (Segment.split source)

/-- The errors of a source, from left to right. -/
def lexicalErrors (source : Text) : List LexicalError :=
  (numberedSegments source).filterMap fun s => s.2.error? s.1

/-- The tokens of a source, from left to right, without an end token. -/
def sourceTokens (source : Text) : List Token :=
  (numberedSegments source).filterMap fun s => s.2.token? s.1

/-- The tokens of a source with its end token, or all its errors. -/
def scan (source : Text) : Except (List LexicalError) (List Token) :=
  match lexicalErrors source with
  | [] => .ok (sourceTokens source ++ [Token.eof (lastLine source)])
  | errors => .error errors

end Lox
