import Lox.Proofs.Procedure
import Lox.Token.Scan

/-!
# Scanning with a cursor

A source can be scanned by procedures that move a cursor over its bytes. They look at the byte
under the cursor and at the one after it, and a byte of value zero stands for both where there is
none; pieces of the source are cut out between two positions. Here such procedures are written
down so that a look-up or a piece outside the source shows: it interrupts them.
-/

namespace Lox

/-- Where scanning is, and what it has found. -/
structure ScanCursor where
  /-- The position of the first byte of the current segment. -/
  start : Nat
  /-- The position of the byte to come. -/
  current : Nat
  /-- The line of the byte to come. -/
  line : Int
  /-- The tokens found so far. -/
  tokens : List Token
  /-- The errors found so far. -/
  errors : List LexicalError

/-- What interrupts scanning. -/
inductive Misreading where
  /-- A byte or a piece that is not inside the source was asked for. -/
  | outside

/-- A procedure over the bytes of a source. -/
abbrev Scanning (α : Type) : Type := Procedure ScanCursor Misreading α

namespace Scanning

section Procedures

variable (source : Text)

/-- The byte at a position. -/
def byteAt (position : Nat) : Scanning UInt8 :=
  match source[position]? with
  | some b => pure b
  | none => throw .outside

/-- The piece of the source between two positions. -/
def piece (first last : Nat) : Scanning Text :=
  if first ≤ last ∧ last ≤ source.length then pure ((source.drop first).take (last - first))
  else throw .outside

/-- Whether no byte is to come. -/
def isAtEnd : Scanning Bool := return source.length ≤ (← get).current

/-- Moves on over a byte. -/
def advance : Scanning UInt8 := do
  let b ← byteAt source (← get).current
  modify fun c => { c with current := c.current + 1 }
  return b

/-- The byte to come, or zero. -/
def peek : Scanning UInt8 := do
  if ← isAtEnd source then return 0
  byteAt source (← get).current

/-- The byte after the one to come, or zero. -/
def peekNext : Scanning UInt8 := do
  let c ← get
  if source.length ≤ c.current + 1 then return 0
  byteAt source (c.current + 1)

/-- Moves on if the given byte is to come, and tells whether it was. -/
def accept (b : UInt8) : Scanning Bool := do
  if ← isAtEnd source then return false
  if (← byteAt source (← get).current) ≠ b then return false
  modify fun c => { c with current := c.current + 1 }
  return true

/-- Adds the token of the current segment. -/
def emit (kind : Kind) (literal : Option Value) : Scanning Unit := do
  let c ← get
  let lexeme ← piece source c.start c.current
  modify fun c => { c with tokens := c.tokens ++ [⟨kind, lexeme, literal, c.line⟩] }

/-- Adds an error on the current line. -/
def report (cause : LexicalCause) : Scanning Unit :=
  modify fun c => { c with errors := c.errors ++ [⟨cause, c.line⟩] }

/-- Goes on to the next line. -/
def newLine : Scanning Unit := modify fun c => { c with line := c.line + 1 }

/-- Moves on as long as the byte to come is of a class, to which zero does not belong. -/
def advanceWhile (p : UInt8 → Bool) : Scanning Unit := do
  if p (← peek source) then
    let _ ← advance source
    advanceWhile.call p
partial_fixpoint

/-- Moves on to the next line feed. -/
def comment : Scanning Unit := do
  if (← peek source) ≠ Text.lineFeed then
    unless ← isAtEnd source do
      comment.after (advance source)
partial_fixpoint

/-- Moves on to the next quote, counting lines. -/
def stringBody : Scanning Unit := do
  if (← peek source) ≠ 0x22 then
    unless ← isAtEnd source do
      if (← peek source) = Text.lineFeed then newLine
      stringBody.after (advance source)
partial_fixpoint

/-- Adds a string at its closing quote. -/
def closeString : Scanning Unit := do
  let _ ← advance source
  let c ← get
  let literal ← piece source (c.start + 1) (c.current - 1)
  emit source .string (some (.string literal))

/-- Scans a string after its opening quote. -/
def string : Scanning Unit := do
  stringBody source
  if ← isAtEnd source then report .unterminatedString
  else closeString source

/-- The number that a numeral denotes. -/
def numberOf (lexeme : Text) : Float :=
  Number.ofNumeral (lexeme.takeWhile Text.isDigit)
    (Segment.fraction (lexeme.dropWhile Text.isDigit))

/-- Moves on over a point with at least one digit after it; any other point is left. -/
def fraction : Scanning Unit := do
  if (← peek source) = 0x2E then
    if Text.isDigit (← peekNext source) then
      let _ ← advance source
      advanceWhile source Text.isDigit

/-- Scans a numeral after its first digit. -/
def number : Scanning Unit := do
  advanceWhile source Text.isDigit
  fraction source
  let c ← get
  let lexeme ← piece source c.start c.current
  emit source .number (some (.number (numberOf lexeme)))

/-- Scans a name after its first letter. -/
def name : Scanning Unit := do
  advanceWhile source Segment.isNamePart
  let c ← get
  let lexeme ← piece source c.start c.current
  emit source (Segment.nameKind lexeme) none

/-- Moves on over the whole character that the current segment starts with. -/
def unexpected : Scanning Unit := do
  let c ← get
  let rest ← piece source c.start source.length
  let rune := Rune.first (rest.headD 0) rest.tail
  modify fun c => { c with current := c.start + rune.bytes.length }
  report (.unexpectedCharacter rune)

/-- Adds the sign that takes a following equals sign if there is one. -/
def signOrEqual (short long : Punctuator) : Scanning Unit := do
  if ← accept source 0x3D then emit source (.sign long) none
  else emit source (.sign short) none

/-- Scans one segment. -/
def segment : Scanning Unit := do
  let b ← advance source
  match b with
  | 0x20 | 0x09 | 0x0D => return
  | 0x0A => newLine
  | 0x28 => emit source (.sign .leftParen) none
  | 0x29 => emit source (.sign .rightParen) none
  | 0x7B => emit source (.sign .leftBrace) none
  | 0x7D => emit source (.sign .rightBrace) none
  | 0x2C => emit source (.sign .comma) none
  | 0x2E => emit source (.sign .dot) none
  | 0x2D => emit source (.sign .minus) none
  | 0x2B => emit source (.sign .plus) none
  | 0x3B => emit source (.sign .semicolon) none
  | 0x2A => emit source (.sign .star) none
  | 0x2F =>
    if ← accept source 0x2F then comment source
    else emit source (.sign .slash) none
  | 0x21 => signOrEqual source .bang .bangEqual
  | 0x3D => signOrEqual source .equal .equalEqual
  | 0x3C => signOrEqual source .less .lessEqual
  | 0x3E => signOrEqual source .greater .greaterEqual
  | 0x22 => string source
  | _ =>
    if Text.isDigit b then number source
    else if Text.isLetter b then name source
    else unexpected source

/-- Scans segments up to the end of the source. -/
def segments : Scanning Unit := do
  unless ← isAtEnd source do
    modify fun c => { c with start := c.current }
    segments.after (segment source)
partial_fixpoint

/-- The tokens of a source with its end token, or all its errors, scanned with a cursor. -/
def scan : Option (Except Misreading (Except (List LexicalError) (List Token))) :=
  ((segments source).runAt ⟨0, 0, 1, [], []⟩).map fun (result, cursor) =>
    result.map fun _ =>
      match cursor.errors with
      | [] => .ok (cursor.tokens ++ [Token.eof cursor.line])
      | errors => .error errors

end Procedures

end Scanning

end Lox
