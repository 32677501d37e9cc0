import Lox.Text.Printable

/-!
# Quoted texts

A quoted text stands between double quotes and is pure printable Unicode: the
quote and the backslash are escaped, seven controls have a letter of their own,
a stray byte or another ASCII control is written in two hexadecimal digits, and
any other character that is not printable in four or eight.
-/

namespace Lox.Quoted

/-- A hexadecimal digit in lower case. -/
def hexDigit (n : Nat) : UInt8 :=
  if n < 10 then (0x30 + n).toUInt8 else (0x57 + n).toUInt8

/-- A number in lower-case hexadecimal, with exactly the given count of digits. -/
def hex : Nat → Nat → Text
  | 0, _ => []
  | width + 1, n => hex width (n / 16) ++ [hexDigit (n % 16)]

/-- The letter that names a control in an escape. -/
def controlLetter? (code : Nat) : Option Text :=
  if code == 0x07 then some (utf8 "a")
  else if code == 0x08 then some (utf8 "b")
  else if code == 0x0C then some (utf8 "f")
  else if code == 0x0A then some (utf8 "n")
  else if code == 0x0D then some (utf8 "r")
  else if code == 0x09 then some (utf8 "t")
  else if code == 0x0B then some (utf8 "v")
  else none

/-- The written form of one rune, for a given notion of printable. -/
def escape (printable : Nat → Bool) : Rune → Text
  | .stray b => utf8 "\\x" ++ hex 2 b.toNat
  | .scalar c bytes =>
    if c == 0x22 || c == 0x5C then utf8 "\\" ++ bytes
    else if printable c then bytes
    else match controlLetter? c with
      | some letter => utf8 "\\" ++ letter
      | none =>
        if c < 0x20 || c == 0x7F then utf8 "\\x" ++ hex 2 c
        else if c < 0x10000 then utf8 "\\u" ++ hex 4 c
        else utf8 "\\U" ++ hex 8 c

/-- The quoted form of a text, for a given notion of printable. -/
def quoteWith (printable : Nat → Bool) (t : Text) : Text :=
  utf8 "\"" ++ (Rune.split t).flatMap (escape printable) ++ utf8 "\""

/-- The quoted form of a text. -/
def quote (t : Text) : Text := quoteWith Printable.isPrintable t

end Lox.Quoted
