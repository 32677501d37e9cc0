import Lox.Number.Positional

/-!
# Types by spelling

A scalar that is not quoted has a type by its spelling: null, a truth value, a
whole number, a decimal number, or a date with or without a time; any other one
is a string. Underscores may stand between the digits of a number.
-/

namespace Lox.Document

/-- The type of a node. -/
inductive Tag where
  | null | bool | int | float | timestamp | string | list | mapping | merge
  /-- A type that has no meaning of its own. -/
  | other (name : Text)
  deriving DecidableEq, Repr

namespace Tag

/-- The name of a type. -/
def name : Tag → Text
  | null => utf8 "!!null"
  | bool => utf8 "!!bool"
  | int => utf8 "!!int"
  | float => utf8 "!!float"
  | timestamp => utf8 "!!timestamp"
  | string => utf8 "!!str"
  | list => utf8 "!!seq"
  | mapping => utf8 "!!map"
  | merge => utf8 "!!merge"
  | other t => t

/-- The types with a name of their own. -/
def named : List Tag := [null, bool, int, float, timestamp, string, list, mapping, merge]

/-- The type with a name. -/
def ofName (t : Text) : Tag := (named.find? fun tag => tag.name == t).getD (other t)

/-- A name leads back to its type. -/
theorem ofName_name : ∀ tag ∈ named, ofName tag.name = tag := by
  decide

/-- Whether a spelling has to agree with a type. -/
def isSpelled : Tag → Bool
  | null | bool | int | float | timestamp => true
  | _ => false

end Tag

namespace Spelling

/-- The spellings of null. -/
def nullWords : List Text := ["", "~", "null", "Null", "NULL"].map utf8

/-- The spellings of true. -/
def trueWords : List Text := ["true", "True", "TRUE"].map utf8

/-- The spellings of false. -/
def falseWords : List Text := ["false", "False", "FALSE"].map utf8

/-- The spellings of the numbers that digits cannot spell. -/
def floatWords : List Text :=
  [".nan", ".NaN", ".NAN", ".inf", ".Inf", ".INF", "+.inf", "+.Inf", "+.INF", "-.inf",
    "-.Inf", "-.INF"].map utf8

/-- The sign in front of a numeral, if any, and the rest: true for a minus. -/
def splitSign : Text → Option Bool × Text
  | 0x2B :: rest => (some false, rest)
  | 0x2D :: rest => (some true, rest)
  | t => (none, t)

/-- The value of a digit in a base of at most sixteen. -/
def digitValue? (base : Nat) (b : UInt8) : Option Nat :=
  let v := if Text.isDigit b then some (b.toNat - 0x30)
    else if 0x61 ≤ b && b ≤ 0x66 then some (b.toNat - 0x57)
    else if 0x41 ≤ b && b ≤ 0x46 then some (b.toNat - 0x37)
    else none
  v.filter fun n => n < base

/-- The number that digits spell in a base. -/
def valueIn? (base : Nat) (digits : Text) : Option Nat :=
  if digits.isEmpty then none
  else digits.foldl (fun n b => do return base * (← n) + (← digitValue? base b)) (some 0)

/-- The number that unsigned digits spell; a zero in front, alone or with a
letter, tells the base. -/
def unsignedValue? : Text → Option Nat
  | 0x30 :: b :: rest =>
    if b == 0x78 || b == 0x58 then valueIn? 16 rest
    else if b == 0x62 || b == 0x42 then valueIn? 2 rest
    else if b == 0x6F || b == 0x4F then valueIn? 8 rest
    else valueIn? 8 (b :: rest)
  | t => valueIn? 10 t

/-- Whether a number with an optional sign takes at most sixty-four bits. A signed
one has one bit for its sign. -/
def fits : Option Bool → Nat → Bool
  | none, n => n < Nat.pow 2 64
  | some false, n => n < Nat.pow 2 63
  | some true, n => n ≤ Nat.pow 2 63

/-- Whether the letter of a base is followed by a sign and digits. -/
def isSignedAfterBase : Text → Bool
  | 0x30 :: b :: rest =>
    let (sign, digits) := splitSign rest
    let value := if b == 0x62 then valueIn? 2 digits
      else if b == 0x6F then valueIn? 8 digits
      else none
    sign.isSome && value.any (fits sign)
  | _ => false

/-- Whether a text spells a whole number of sixty-four bits. The sign stands in
front, or after the letter of a base. -/
def isInt (t : Text) : Bool :=
  let (sign, digits) := splitSign t
  (unsignedValue? digits).any (fits sign) || isSignedAfterBase t

/-- The exponent at the end of a numeral: nothing, or a mark, an optional sign and
digits. -/
def exponent? : Text → Option Int
  | [] => some 0
  | b :: rest =>
    if b == 0x65 || b == 0x45 then
      let (sign, digits) := splitSign rest
      (valueIn? 10 digits).map fun n => if sign = some true then -(n : Int) else n
    else none

/-- The digits after the point of a numeral and what follows them. -/
def splitFraction : Text → Text × Text
  | 0x2E :: rest => (rest.takeWhile Text.isDigit, rest.dropWhile Text.isDigit)
  | rest => ([], rest)

/-- Whether digits times a power of ten are a number that is not too large. The
order is the least power of ten above the number; only at one order do the digits
decide. -/
def isInRange (digits : Text) (scale : Int) : Bool :=
  let significant := digits.dropWhile (· == 0x30)
  let order := significant.length + scale
  let value := fun (_ : Unit) =>
    Float.ofScientific (Number.digitsValue significant) (scale < 0) scale.natAbs
  significant.isEmpty || order < 309 || (order == 309 && (value ()).isFinite)

/-- Whether a text spells a decimal number that is not too large: digits with an
optional point, at least one of them if the point comes first, and an optional
exponent. -/
def isFloat (t : Text) : Bool :=
  let body := (splitSign t).2
  let whole := body.takeWhile Text.isDigit
  let (fraction, tail) := splitFraction (body.dropWhile Text.isDigit)
  if whole.isEmpty && fraction.isEmpty then false
  else (exponent? tail).any fun e => isInRange (whole ++ fraction) (e - fraction.length)

/-- The byte that may stand between digits. -/
def underscore : UInt8 := 0x5F

/-- Whether every underscore stands between two digits, by whether a digit stands
in front. -/
def isSeparated : Bool → Text → Bool
  | _, [] => true
  | afterDigit, b :: rest =>
    if b == underscore then afterDigit && rest.head?.any Text.isDigit && isSeparated false rest
    else isSeparated (Text.isDigit b) rest

/-- The text without underscores. -/
def withoutUnderscores (t : Text) : Text := t.filter (· != underscore)

/-- The days of a month. -/
def daysIn (year month : Nat) : Nat :=
  if month = 2 then
    if year % 4 = 0 ∧ (year % 100 ≠ 0 ∨ year % 400 = 0) then 29 else 28
  else if month = 4 ∨ month = 6 ∨ month = 9 ∨ month = 11 then 30
  else 31

/-- Whether a text spells a date: a year of four digits, a month and a day of one
or two. -/
def isDate (t : Text) : Bool :=
  match Text.splitOn 0x2D t with
  | [y, m, d] =>
    match valueIn? 10 y, valueIn? 10 m, valueIn? 10 d with
    | some year, some month, some day =>
      y.length == 4 && m.length ≤ 2 && d.length ≤ 2 && 1 ≤ month && month ≤ 12 &&
        1 ≤ day && day ≤ daysIn year month
    | _, _, _ => false
  | _ => false

/-- Whether a text is a numeral of one or two digits up to a bound. -/
def isUpTo (most : Nat) (t : Text) : Bool :=
  t.length ≤ 2 && (valueIn? 10 t).any (· ≤ most)

/-- Whether a text spells a time of day: hours, minutes and seconds with colons
between them, and a fraction of a second after a point or a comma. -/
def isClock (t : Text) : Bool :=
  match Text.splitOn 0x3A t with
  | [h, m, s] =>
    let fraction := s.dropWhile Text.isDigit
    isUpTo 23 h && isUpTo 59 m && isUpTo 59 (s.takeWhile Text.isDigit) &&
      match fraction with
      | [] => true
      | b :: digits => (b == 0x2E || b == 0x2C) && !digits.isEmpty && digits.all Text.isDigit
  | _ => false

/-- Whether a text spells a time zone: the letter `Z`, or a sign with two digits
each for hours and minutes. -/
def isZone : Text → Bool
  | [0x5A] => true
  | [sign, a, b, 0x3A, c, d] =>
    (sign == 0x2B || sign == 0x2D) && isUpTo 24 [a, b] && isUpTo 60 [c, d]
  | _ => false

/-- Whether a text spells a date, alone or with a time: after spaces without a
time zone, after the letter `T` with one. -/
def isTimestamp (t : Text) : Bool :=
  let isDivider (b : UInt8) : Bool := b == 0x20 || b == 0x54 || b == 0x74
  let isZoneStart (b : UInt8) : Bool := b == 0x5A || b == 0x2B || b == 0x2D
  isDate (t.takeWhile fun b => !isDivider b) &&
    match t.dropWhile fun b => !isDivider b with
    | [] => true
    | 0x20 :: time => isClock (time.dropWhile (· == 0x20))
    | _ :: time =>
      isClock (time.takeWhile fun b => !isZoneStart b) &&
        isZone (time.dropWhile fun b => !isZoneStart b)

/-- The type of a number, or of what starts like one. -/
def numeralTag (t : Text) : Tag :=
  let digits := withoutUnderscores t
  if isInt digits then .int
  else if isFloat digits then .float
  else .string

/-- The type that a spelling has, dates apart. -/
def undatedTag (t : Text) : Tag :=
  if nullWords.contains t then .null
  else if trueWords.contains t || falseWords.contains t then .bool
  else if floatWords.contains t then .float
  else match t with
    | [] => .null
    | b :: _ =>
      if b == 0x2E then
        if isSeparated false t && isFloat (withoutUnderscores t) then .float else .string
      else if Text.isDigit b || b == 0x2B || b == 0x2D then numeralTag t
      else .string

/-- The type that a spelling has. -/
def tag (t : Text) : Tag :=
  if t = utf8 "<<" then .merge
  else if isTimestamp t then .timestamp
  else undatedTag t

end Spelling

end Lox.Document
