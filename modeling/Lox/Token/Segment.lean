import Lox.Text.Rune
import Lox.Token

/-!
# Segments of a source

A source falls, from left to right, into segments: blanks, comments, tokens and
two kinds of bad segment. Each is as long as its pattern allows. Nothing is
dropped here, so the segments' texts joined together are the source.
-/

namespace Lox

/-- One piece of a source. -/
inductive Segment where
  /-- A space, a tab, a carriage return or a line feed. -/
  | blank (byte : UInt8)
  /-- Two slashes and the rest of their line, without its line feed. -/
  | comment (body : Text)
  /-- A token with its kind, its bytes and the value it denotes. -/
  | token (kind : Kind) (lexeme : Text) (literal : Option Value)
  /-- A quote that no later quote closes, with the rest of the source. -/
  | unterminated (body : Text)
  /-- A character that starts no token. -/
  | unexpected (rune : Rune)
  deriving DecidableEq

namespace Segment

/-- The bytes of a segment. -/
def text : Segment → Text
  | blank b => [b]
  | comment body => utf8 "//" ++ body
  | token _ lexeme _ => lexeme
  | unterminated body => utf8 "\"" ++ body
  | unexpected rune => rune.bytes

/-- A letter, an underscore or a digit. -/
def isNamePart (b : UInt8) : Bool := Text.isLetter b || Text.isDigit b

/-- The kind of a name: a reserved word's own kind, or an identifier. -/
def nameKind (lexeme : Text) : Kind :=
  match Keyword.ofSpelling? lexeme with
  | some k => .word k
  | none => .identifier

/-- The segment of a sign. -/
def sign (p : Punctuator) : Segment := token (.sign p) p.spelling none

/-- The sign that takes a following equals sign if there is one. -/
def signOrEqual (short long : Punctuator) : Text → Segment
  | 0x3D :: _ => sign long
  | _ => sign short

/-- A string or an unterminated string, by what follows its opening quote. -/
def quoted (rest : Text) : Segment :=
  let body := rest.takeWhile (· != 0x22)
  match rest.dropWhile (· != 0x22) with
  | [] => unterminated body
  | _ => token .string (utf8 "\"" ++ body ++ utf8 "\"") (some (.string body))

/-- The fraction of a numeral: a point with at least one digit after it, or
nothing. Its digits are given without the point. -/
def fraction : Text → Text
  | 0x2E :: rest => rest.takeWhile Text.isDigit
  | _ => []

/-- A numeral, by its first digit and what follows. -/
def numeral (digit : UInt8) (rest : Text) : Segment :=
  let whole := digit :: rest.takeWhile Text.isDigit
  let decimals := fraction (rest.dropWhile Text.isDigit)
  let lexeme := if decimals.isEmpty then whole else whole ++ utf8 "." ++ decimals
  token .number lexeme (some (.number (Number.ofNumeral whole decimals)))

/-- A name, by its first letter and what follows. -/
def name (letter : UInt8) (rest : Text) : Segment :=
  let lexeme := letter :: rest.takeWhile isNamePart
  token (nameKind lexeme) lexeme none

/-- The first segment of the source `b :: rest`. -/
def first (b : UInt8) (rest : Text) : Segment :=
  match b with
  | 0x20 | 0x09 | 0x0D | 0x0A => blank b
  | 0x28 => sign .leftParen
  | 0x29 => sign .rightParen
  | 0x7B => sign .leftBrace
  | 0x7D => sign .rightBrace
  | 0x2C => sign .comma
  | 0x2E => sign .dot
  | 0x2D => sign .minus
  | 0x2B => sign .plus
  | 0x3B => sign .semicolon
  | 0x2A => sign .star
  | 0x2F =>
    match rest with
    | 0x2F :: more => comment (more.takeWhile (· != Text.lineFeed))
    | _ => sign .slash
  | 0x21 => signOrEqual .bang .bangEqual rest
  | 0x3D => signOrEqual .equal .equalEqual rest
  | 0x3C => signOrEqual .less .lessEqual rest
  | 0x3E => signOrEqual .greater .greaterEqual rest
  | 0x22 => quoted rest
  | _ =>
    if Text.isDigit b then numeral b rest
    else if Text.isLetter b then name b rest
    else unexpected (Rune.first b rest)

/-- The segments of a source after skipping bytes of an earlier segment. -/
def splitFrom : Nat → Text → List Segment
  | _, [] => []
  | 0, b :: rest =>
    let segment := first b rest
    segment :: splitFrom (segment.text.length - 1) rest
  | skip + 1, _ :: rest => splitFrom skip rest

/-- The segments of a source, from left to right. -/
def split (source : Text) : List Segment := splitFrom 0 source

/-- Skipping bytes is the same as dropping them. -/
theorem splitFrom_eq_split_drop (skip : Nat) (source : Text) :
    splitFrom skip source = split (source.drop skip) := by
  induction source generalizing skip with
  | nil => cases skip <;> simp [split, splitFrom]
  | cons b rest ih =>
    cases skip with
    | zero => rfl
    | succ n => simpa [splitFrom] using ih n

/-- A source is its first segment followed by the segments of what is left. -/
theorem split_cons (b : UInt8) (rest : Text) :
    split (b :: rest) =
      first b rest :: split (rest.drop ((first b rest).text.length - 1)) := by
  rw [← splitFrom_eq_split_drop]
  rfl

end Segment

end Lox
