import Lox.Text.Rune

/-!
# Characters of a document

A document is written in UTF-8, or in UTF-16 if a byte order mark says so; a mark
in front of UTF-8 is dropped as well. Controls other than tabs and the ends of
lines may not occur. A carriage return, with or without a line feed, and a next
line character end a line like a line feed and are read as one; the line and the
paragraph separator end a line as well and stay what they are.
-/

namespace Lox.Document

/-- Why bytes are not the characters of a document. -/
inductive StreamFault where
  /-- A byte starts no character. -/
  | leadingByte
  /-- The text ends inside a character. -/
  | incomplete
  /-- A byte does not continue a character. -/
  | trailingByte
  /-- A character takes more bytes than it needs. -/
  | overlong
  /-- A code point is a surrogate or too large. -/
  | noCharacter
  /-- The text ends inside a unit of two bytes. -/
  | incompleteUnit
  /-- A low surrogate stands without a high one. -/
  | lowSurrogate
  /-- The text ends after a high surrogate. -/
  | incompletePair
  /-- No low surrogate follows a high one. -/
  | highSurrogate
  /-- A control character. -/
  | control
  deriving DecidableEq, Repr

/-- The text of a fault. -/
def StreamFault.text : StreamFault → Text
  | leadingByte => utf8 "invalid leading UTF-8 octet"
  | incomplete => utf8 "incomplete UTF-8 octet sequence"
  | trailingByte => utf8 "invalid trailing UTF-8 octet"
  | overlong => utf8 "invalid length of a UTF-8 sequence"
  | noCharacter => utf8 "invalid Unicode character"
  | incompleteUnit => utf8 "incomplete UTF-16 character"
  | lowSurrogate => utf8 "unexpected low surrogate area"
  | incompletePair => utf8 "incomplete UTF-16 surrogate pair"
  | highSurrogate => utf8 "expected low surrogate area"
  | control => utf8 "control characters are not allowed"

/-- How many bytes a lead byte announces, and the bits it carries itself. -/
def announced? (lead : UInt8) : Option (Nat × Nat) :=
  if lead < 0x80 then some (1, lead.toNat)
  else if 0xC0 ≤ lead && lead ≤ 0xDF then some (2, lead.toNat % 0x20)
  else if 0xE0 ≤ lead && lead ≤ 0xEF then some (3, lead.toNat % 0x10)
  else if 0xF0 ≤ lead && lead ≤ 0xF7 then some (4, lead.toNat % 0x08)
  else none

/-- The least code point that needs a number of bytes. -/
def leastOf (width : Nat) : Nat :=
  if width = 2 then 0x80 else if width = 3 then 0x800 else if width = 4 then 0x10000 else 0

/-- The character that a lead byte starts, with the number of its bytes. -/
def firstOf (lead : UInt8) (rest : Text) : Except StreamFault (Nat × Nat) :=
  match announced? lead with
  | none => .error .leadingByte
  | some (width, bits) =>
    let tail := rest.take (width - 1)
    let code := tail.foldl (fun n b => 0x40 * n + Rune.payload b) bits
    if tail.length < width - 1 then .error .incomplete
    else if !tail.all Rune.isContinuation then .error .trailingByte
    else if code < leastOf width then .error .overlong
    else if (0xD800 ≤ code && code ≤ 0xDFFF) || 0x10FFFF < code then .error .noCharacter
    else .ok (code, width)

/-- The characters of a text in UTF-8, after skipping bytes that belong to an
earlier one. -/
def ofUtf8 : Nat → Text → Except StreamFault (List Nat)
  | _, [] => .ok []
  | skip + 1, _ :: rest => ofUtf8 skip rest
  | 0, lead :: rest =>
    match firstOf lead rest with
    | .error fault => .error fault
    | .ok (code, width) => (ofUtf8 (width - 1) rest).map (code :: ·)

/-- The units of two bytes in a text. -/
def units (bigEndian : Bool) : Text → Except StreamFault (List Nat)
  | [] => .ok []
  | [_] => .error .incompleteUnit
  | a :: b :: rest =>
    let unit := if bigEndian then 0x100 * a.toNat + b.toNat else 0x100 * b.toNat + a.toNat
    (units bigEndian rest).map (unit :: ·)

/-- Whether a unit is the second half of a pair. -/
def isLow (unit : Nat) : Bool := 0xDC00 ≤ unit && unit ≤ 0xDFFF

/-- Whether a unit is the first half of a pair. -/
def isHigh (unit : Nat) : Bool := 0xD800 ≤ unit && unit ≤ 0xDBFF

/-- The characters that units make up. -/
def ofUnits : List Nat → Except StreamFault (List Nat)
  | [] => .ok []
  | [unit] =>
    if isLow unit then .error .lowSurrogate
    else if isHigh unit then .error .incompletePair
    else .ok [unit]
  | unit :: next :: rest =>
    if isLow unit then .error .lowSurrogate
    else if !isHigh unit then (ofUnits (next :: rest)).map (unit :: ·)
    else if !isLow next then .error .highSurrogate
    else (ofUnits rest).map ((0x10000 + 0x400 * (unit - 0xD800) + (next - 0xDC00)) :: ·)

/-- The characters of a text, by the byte order mark in front. -/
def decode : Text → Except StreamFault (List Nat)
  | 0xFF :: 0xFE :: rest => units false rest >>= ofUnits
  | 0xFE :: 0xFF :: rest => units true rest >>= ofUnits
  | 0xEF :: 0xBB :: 0xBF :: rest => ofUtf8 0 rest
  | t => ofUtf8 0 t

/-- Whether a character may occur in a document. -/
def isAllowed (c : Nat) : Bool :=
  c == 0x09 || c == 0x0A || c == 0x0D || (0x20 ≤ c && c ≤ 0x7E) || c == 0x85 ||
    (0xA0 ≤ c && c ≤ 0xD7FF) || (0xE000 ≤ c && c ≤ 0xFFFD) || (0x10000 ≤ c && c ≤ 0x10FFFF)

/-- A line feed in place of each carriage return, with its line feed if there is
one, and of each next line character. -/
def unifyBreaks : List Nat → List Nat
  | [] => []
  | 0x0D :: 0x0A :: rest => 0x0A :: unifyBreaks rest
  | c :: rest => (if c == 0x0D || c == 0x85 then 0x0A else c) :: unifyBreaks rest

/-- The characters of a document. -/
def characters (t : Text) : Except StreamFault (List Nat) :=
  match decode t with
  | .error fault => .error fault
  | .ok codes => if codes.all isAllowed then .ok (unifyBreaks codes) else .error .control

/-- The text that characters make up. -/
def textOf (codes : List Nat) : Text := codes.flatMap Rune.encode

/-- The space. -/
abbrev space : Nat := 0x20

/-- The tab. -/
abbrev tab : Nat := 0x09

/-- The line feed. -/
abbrev feed : Nat := 0x0A

/-- The mark that may stand in front of a text. -/
abbrev orderMark : Nat := 0xFEFF

/-- A space or a tab. -/
def isBlank (c : Nat) : Bool := c == space || c == tab

/-- A character that ends a line. -/
def isBreak (c : Nat) : Bool := c == feed || c == 0x2028 || c == 0x2029

/-- A blank or the end of a line. -/
def isGap (c : Nat) : Bool := isBlank c || isBreak c

/-- Whether a gap or the end comes next. -/
def atGap (rest : List Nat) : Bool := rest.head?.all isGap

/-- Whether a sign comes next and a gap or the end after it. -/
def atSign (sign : Text) (rest : List Nat) : Bool :=
  (sign.map UInt8.toNat).isPrefixOf rest && atGap (rest.drop sign.length)

end Lox.Document
