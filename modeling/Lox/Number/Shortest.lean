/-!
# The shortest decimal of a binary number

A positive binary64 number owns an interval: the reals that round to it, its
ends included exactly when its significand is even. The shortest decimal of the
number is the member of that interval on the coarsest grid of multiples of a
power of ten that meets the interval; of two such members it is the nearer, and
of two equally near the one with an even last digit.
-/

namespace Lox.Number

/-- A positive binary number `significand * 2 ^ exponent`. -/
structure Magnitude where
  /-- The integer significand. -/
  significand : Nat
  /-- The power of two that scales it. -/
  exponent : Int
  /-- Whether the next number below is only half as far away as the next above. -/
  closeBelow : Bool
  deriving DecidableEq, Repr

/-- A decimal number `digits * 10 ^ exponent`. -/
structure Decimal where
  /-- The significant digits as one number. -/
  digits : Nat
  /-- The power of ten that scales it. -/
  exponent : Int
  deriving DecidableEq, Repr

namespace Magnitude

/-- The number in quarters of its last binary place. -/
def centre (v : Magnitude) : Nat := 4 * v.significand

/-- The lower end of the interval, in quarters of the last place. -/
def lower (v : Magnitude) : Nat := v.centre - (if v.closeBelow then 1 else 2)

/-- The upper end of the interval, in quarters of the last place. -/
def upper (v : Magnitude) : Nat := v.centre + 2

/-- Two whole numbers that stand to each other as the decimal unit `10 ^ place`
to a quarter of the last binary place. -/
def units (v : Magnitude) (place : Int) : Nat × Nat :=
  let quarter := v.exponent - 2
  (Nat.pow 10 place.toNat * Nat.pow 2 (-quarter).toNat,
    Nat.pow 2 quarter.toNat * Nat.pow 10 (-place).toNat)

/-- Whether `digits * 10 ^ place` lies in the interval. -/
def owns (v : Magnitude) (place : Int) (digits : Nat) : Bool :=
  let (ten, two) := v.units place
  let point := digits * ten
  if v.significand % 2 == 0 then v.lower * two ≤ point && point ≤ v.upper * two
  else v.lower * two < point && point < v.upper * two

/-- The multiple of `10 ^ place` nearest to the number among those that its
interval owns; of two equally near the even one. -/
def nearestOn (v : Magnitude) (place : Int) : Option Nat :=
  let (ten, two) := v.units place
  let value := v.centre * two
  let below := value / ten
  let above := below + 1
  match v.owns place below, v.owns place above with
  | true, true =>
    let down := value - below * ten
    let up := above * ten - value
    some (if down < up ∨ (down = up ∧ below % 2 = 0) then below else above)
  | true, false => some below
  | false, true => some above
  | false, false => none

/-- A member found on a grid is owned by the interval. -/
theorem owns_of_nearestOn {v : Magnitude} {place : Int} {d : Nat}
    (h : v.nearestOn place = some d) : v.owns place d = true := by
  unfold nearestOn at h
  simp only at h
  split at h
  · next hb ha =>
    split at h
    · cases h; exact hb
    · cases h; exact ha
  · next hb _ => cases h; exact hb
  · next _ ha => cases h; exact ha
  · cases h

/-- The search for the coarsest grid that meets the interval, from a given
place downwards over a bounded count of places. -/
def search (v : Magnitude) : Nat → Int → Decimal
  | 0, place => ⟨0, place⟩
  | steps + 1, place =>
    match v.nearestOn place with
    | some digits => ⟨digits, place⟩
    | none => search v steps (place - 1)

/-- A place whose unit exceeds the number: three tenths approximate the
logarithm of two, and the margin covers their error for every exponent. -/
def topPlace (v : Magnitude) : Int := (54 + v.exponent) * 3 / 10 + 12

/-- The shortest decimal of the number. Fifty places below the first lie far
under the last binary place, so the search ends within them. -/
def shortest (v : Magnitude) : Decimal := v.search 80 v.topPlace

end Magnitude

/-- The parts of a binary64 number. -/
inductive Parts where
  /-- Not a number. -/
  | nan
  /-- Positive or negative infinity. -/
  | infinity (negative : Bool)
  /-- Positive or negative zero. -/
  | zero (negative : Bool)
  /-- Any other number, by sign and magnitude. -/
  | finite (negative : Bool) (magnitude : Magnitude)
  deriving DecidableEq, Repr

/-- The parts of a number, read off its sixty-four bits: one sign bit, eleven
exponent bits, fifty-two fraction bits. -/
def parts (x : Float) : Parts :=
  let bits : Nat := x.toBits.toNat
  let negative := bits / Nat.pow 2 63 == 1
  let biased : Nat := bits / Nat.pow 2 52 % Nat.pow 2 11
  let fraction := bits % Nat.pow 2 52
  if biased == 2047 then
    if fraction == 0 then .infinity negative else .nan
  else if biased == 0 then
    if fraction == 0 then .zero negative
    else .finite negative ⟨fraction, -1074, false⟩
  else
    .finite negative
      ⟨Nat.pow 2 52 + fraction, (biased : Int) - 1075, fraction == 0 && 1 < biased⟩

end Lox.Number
