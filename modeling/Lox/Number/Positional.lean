import Lox.Text
import Lox.Number.Shortest

/-!
# Numbers in positional notation

A number is written with the digits of its shortest decimal and never with an
exponent. Zero keeps its sign, infinities carry one, and a whole number has no
decimal point.
-/

namespace Lox.Number

/-- A run of zeros. -/
def zeros (count : Nat) : Text := List.replicate count 0x30

/-- A decimal in positional notation. -/
def Decimal.positional (d : Decimal) : Text :=
  let digits := Text.decimal d.digits
  let places := (-d.exponent).toNat
  if 0 ≤ d.exponent then digits ++ zeros d.exponent.toNat
  else if places < digits.length then
    digits.take (digits.length - places) ++ utf8 "." ++ digits.drop (digits.length - places)
  else utf8 "0." ++ zeros (places - digits.length) ++ digits

/-- The sign in front of a negative number. -/
def minus (negative : Bool) : Text := if negative then utf8 "-" else []

/-- The text of a number. -/
def text (x : Float) : Text :=
  match parts x with
  | .nan => utf8 "NaN"
  | .infinity negative => (if negative then utf8 "-" else utf8 "+") ++ utf8 "Inf"
  | .zero negative => minus negative ++ utf8 "0"
  | .finite negative magnitude => minus negative ++ magnitude.shortest.positional

/-- The whole number that a run of digits spells. -/
def digitsValue (digits : Text) : Nat :=
  digits.foldl (fun n d => 10 * n + (d.toNat - 0x30)) 0

/-- The number that a numeral spells, by its digits before and after the point:
the nearest binary64 number, and positive infinity beyond the largest. -/
def ofNumeral (whole fraction : Text) : Float :=
  Float.ofScientific (digitsValue (whole ++ fraction)) true fraction.length

end Lox.Number
