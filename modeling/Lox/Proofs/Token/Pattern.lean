import Lox.Token.Scan
import Lox.Proofs.Text.Utf8

/-!
# The shape of tokens

What a source is made of, said without reading it: the patterns of tokens, the five rules by
which a source may start with a segment, and the segments that follow one another when each
is the first of the rules to apply. A token is the longest start of the source that matches a
pattern.
-/

namespace Lox

/-- The texts of tokens, with the kind and the literal of each. -/
inductive Pattern : Kind → Text → Option Value → Prop
  /-- A sign of one or two characters. -/
  | sign (p : Punctuator) : Pattern (.sign p) p.spelling none
  /-- A string: bytes without a quote between two quotes. -/
  | string {body : Text} (h : ∀ b ∈ body, b ≠ 0x22) :
      Pattern .string (utf8 "\"" ++ body ++ utf8 "\"") (some (.string body))
  /-- A numeral of digits only. -/
  | whole {digits : Text} (hne : digits ≠ []) (h : ∀ b ∈ digits, Text.isDigit b = true) :
      Pattern .number digits (some (.number (Number.ofNumeral digits [])))
  /-- A numeral with digits before and after a point. -/
  | decimal {digits decimals : Text} (hne : digits ≠ [])
      (h : ∀ b ∈ digits, Text.isDigit b = true) (hne' : decimals ≠ [])
      (h' : ∀ b ∈ decimals, Text.isDigit b = true) :
      Pattern .number (digits ++ utf8 "." ++ decimals)
        (some (.number (Number.ofNumeral digits decimals)))
  /-- A reserved word. -/
  | word (k : Keyword) : Pattern (.word k) k.spelling none
  /-- A letter and then letters and digits, unless they spell a reserved word. -/
  | identifier {letter : UInt8} {rest : Text} (hl : Text.isLetter letter = true)
      (h : ∀ b ∈ rest, Text.isLetter b = true ∨ Text.isDigit b = true)
      (hw : ∀ k : Keyword, letter :: rest ≠ k.spelling) :
      Pattern .identifier (letter :: rest) none

namespace Segment

/-- The bytes that only set tokens apart: space, tab, carriage return and line feed. -/
def blanks : List UInt8 := [0x20, 0x09, 0x0D, 0x0A]

/-- The ways in which a source may start with a segment. -/
inductive Matches : Text → Segment → Prop
  | blank {b : UInt8} (hb : b ∈ blanks) (rest : Text) : Matches (b :: rest) (.blank b)
  /-- A comment goes on up to the end of its line or of the source. -/
  | comment {body rest : Text} (hbody : ∀ b ∈ body, b ≠ Text.lineFeed)
      (hrest : ∀ b ∈ rest.head?, b = Text.lineFeed) :
      Matches (utf8 "//" ++ body ++ rest) (.comment body)
  /-- A token is the longest start of the source that matches a pattern. -/
  | token {kind : Kind} {lexeme rest : Text} {literal : Option Value}
      (h : Pattern kind lexeme literal)
      (hlongest : ∀ kind' lexeme' literal', Pattern kind' lexeme' literal' →
        lexeme' <+: lexeme ++ rest → lexeme'.length ≤ lexeme.length) :
      Matches (lexeme ++ rest) (.token kind lexeme literal)
  /-- A quote with all that follows it. -/
  | unterminated (body : Text) : Matches (utf8 "\"" ++ body) (.unterminated body)
  /-- Any character, or a byte that starts none. -/
  | unexpected {source : Text} {rune : Rune} (h : rune.Starts source) :
      Matches source (.unexpected rune)

/-- The place of a segment's rule among the rules. -/
def order : Segment → Nat
  | blank _ => 0
  | comment _ => 1
  | token _ _ _ => 2
  | unterminated _ => 3
  | unexpected _ => 4

/-- A source starts with a segment by the first rule that applies. -/
structure Leads (source : Text) (s : Segment) : Prop where
  /-- The rule of the segment applies. -/
  applies : Matches source s
  /-- No rule before it does. -/
  first : ∀ s', Matches source s' → s.order ≤ s'.order

/-- A source falls into segments that follow one another, each by the first rule that applies
to what is left. -/
inductive Splits : Text → List Segment → Prop
  | nil : Splits [] []
  | cons {s : Segment} {rest : Text} {more : List Segment} (h : Leads (s.text ++ rest) s)
      (hrest : Splits rest more) : Splits (s.text ++ rest) (s :: more)

/-- A segment that is an error: a string that no quote closes, or a character that starts no
token. -/
inductive Bad : Segment → Prop
  | unterminated (body : Text) : Bad (.unterminated body)
  | unexpected (rune : Rune) : Bad (.unexpected rune)

/-- Segments with their lines: one more than the line feeds up to the end of each. -/
def located (segments : List Segment) : List (Int × Segment) :=
  segments.mapIdx fun i s =>
    (1 + (Text.newlines ((segments.take (i + 1)).flatMap Segment.text) : Nat), s)

end Segment

end Lox
