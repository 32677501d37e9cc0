import Lox.Text

/-!
# Characters in a byte text

A text falls into runes: the shortest well-formed UTF-8 sequences, and stray
bytes where none starts. Overlong forms, surrogates and code points above
`10FFFF` are not well formed, so each of their bytes is stray.
-/

namespace Lox

/-- One character of a text, or one byte that starts none. -/
inductive Rune where
  /-- A well-formed sequence with its code point and its bytes. -/
  | scalar (code : Nat) (bytes : Text)
  /-- A byte at which no well-formed sequence starts. -/
  | stray (byte : UInt8)
  deriving DecidableEq, Repr

namespace Rune

/-- The code point that stands for what cannot be decoded. -/
def replacement : Nat := 0xFFFD

/-- The code point of a rune; a stray byte has the replacement character's. -/
def code : Rune → Nat
  | scalar c _ => c
  | stray _ => replacement

/-- The bytes that a rune was read from. -/
def bytes : Rune → Text
  | scalar _ bs => bs
  | stray b => [b]

/-- Whether the rune is a well-formed sequence. -/
def isScalar : Rune → Bool
  | scalar _ _ => true
  | stray _ => false

/-- A continuation byte carries six bits. -/
def isContinuation (b : UInt8) : Bool := 0x80 ≤ b && b ≤ 0xBF

/-- The six bits of a continuation byte. -/
def payload (b : UInt8) : Nat := b.toNat % 0x40

/-- The bytes allowed after a lead byte of a three-byte sequence: no overlong
form after `E0`, no surrogate after `ED`. -/
def secondOfThree (lead second : UInt8) : Bool :=
  if lead == 0xE0 then 0xA0 ≤ second && second ≤ 0xBF
  else if lead == 0xED then 0x80 ≤ second && second ≤ 0x9F
  else isContinuation second

/-- The bytes allowed after a lead byte of a four-byte sequence: no overlong
form after `F0`, nothing above `10FFFF` after `F4`. -/
def secondOfFour (lead second : UInt8) : Bool :=
  if lead == 0xF0 then 0x90 ≤ second && second ≤ 0xBF
  else if lead == 0xF4 then 0x80 ≤ second && second ≤ 0x8F
  else isContinuation second

/-- The rune at the start of the text `lead :: rest`. -/
def first (lead : UInt8) (rest : Text) : Rune :=
  if lead < 0x80 then scalar lead.toNat [lead]
  else if 0xC2 ≤ lead && lead ≤ 0xDF then
    match rest with
    | b :: _ =>
      if isContinuation b then scalar (lead.toNat % 0x20 * 0x40 + payload b) [lead, b]
      else stray lead
    | [] => stray lead
  else if 0xE0 ≤ lead && lead ≤ 0xEF then
    match rest with
    | b :: c :: _ =>
      if secondOfThree lead b && isContinuation c then
        scalar (lead.toNat % 0x10 * 0x1000 + payload b * 0x40 + payload c) [lead, b, c]
      else stray lead
    | _ => stray lead
  else if 0xF0 ≤ lead && lead ≤ 0xF4 then
    match rest with
    | b :: c :: d :: _ =>
      if secondOfFour lead b && isContinuation c && isContinuation d then
        scalar (lead.toNat % 0x08 * 0x40000 + payload b * 0x1000 + payload c * 0x40 + payload d)
          [lead, b, c, d]
      else stray lead
    | _ => stray lead
  else stray lead

/-- A rune takes at least the byte it starts at. -/
theorem first_bytes_ne_nil (lead : UInt8) (rest : Text) : (first lead rest).bytes ≠ [] := by
  unfold first
  repeat' split
  all_goals simp only [bytes, ne_eq, reduceCtorEq, not_false_eq_true]

/-- The runes of a text after skipping bytes that belong to an earlier rune. -/
def splitFrom : Nat → Text → List Rune
  | _, [] => []
  | 0, b :: rest =>
    let rune := first b rest
    rune :: splitFrom (rune.bytes.length - 1) rest
  | skip + 1, _ :: rest => splitFrom skip rest

/-- The runes of a text, from left to right. -/
def split (t : Text) : List Rune := splitFrom 0 t

/-- Whether a text is valid UTF-8. -/
def isValid (t : Text) : Bool := (split t).all isScalar

/-- The UTF-8 bytes of a code point; one that is no Unicode scalar value is
written as the replacement character. -/
def encode (code : Nat) : Text :=
  if code < 0x80 then [code.toUInt8]
  else if code < 0x800 then
    [(0xC0 + code / 0x40).toUInt8, (0x80 + code % 0x40).toUInt8]
  else if (0xD800 ≤ code && code ≤ 0xDFFF) || 0x10FFFF < code then [0xEF, 0xBF, 0xBD]
  else if code < 0x10000 then
    [(0xE0 + code / 0x1000).toUInt8, (0x80 + code / 0x40 % 0x40).toUInt8,
      (0x80 + code % 0x40).toUInt8]
  else
    [(0xF0 + code / 0x40000).toUInt8, (0x80 + code / 0x1000 % 0x40).toUInt8,
      (0x80 + code / 0x40 % 0x40).toUInt8, (0x80 + code % 0x40).toUInt8]

/-- The white space of Unicode: what a line may hold and still count as blank. -/
def isSpace (rune : Rune) : Bool :=
  match rune with
  | stray _ => false
  | scalar c _ =>
    (0x09 ≤ c && c ≤ 0x0D) || c == 0x20 || c == 0x85 || c == 0xA0 || c == 0x1680 ||
      (0x2000 ≤ c && c ≤ 0x200A) || c == 0x2028 || c == 0x2029 || c == 0x202F ||
      c == 0x205F || c == 0x3000

/-- The lower-case form of a rune as far as it is an ASCII letter: that of the
ASCII capitals, of the dotted capital I and of the Kelvin sign. Others stay. -/
def lower (rune : Rune) : Text :=
  let c := rune.code
  if 0x41 ≤ c && c ≤ 0x5A then [(c + 0x20).toUInt8]
  else if c == 0x130 then utf8 "i"
  else if c == 0x212A then utf8 "k"
  else rune.bytes

end Rune

/-- A text in lower case, as far as its letters have an ASCII lower case. -/
def Text.lower (t : Text) : Text := (Rune.split t).flatMap Rune.lower

/-- Whether a text holds white space only. -/
def Text.isBlank (t : Text) : Bool := (Rune.split t).all Rune.isSpace

end Lox
