/-!
# Byte texts

Sources, lexemes, string values and messages are sequences of bytes. A text
need not be valid UTF-8, so no operation here looks at characters: fixed words
enter through their UTF-8 bytes, numbers through their decimal digits.
-/

namespace Lox

/-- A text is a sequence of bytes; it need not be valid UTF-8. -/
abbrev Text := List UInt8

/-- The UTF-8 bytes of a fixed word of the program's own output. -/
def utf8 (s : String) : Text := s.toUTF8.data.toList

namespace Text

/-- The byte that ends a line. -/
def lineFeed : UInt8 := 0x0A

/-- The number of line feeds in a text. -/
def newlines (t : Text) : Nat := t.count lineFeed

/-- Line feeds add up over consecutive texts. -/
theorem newlines_append (s t : Text) :
    newlines (s ++ t) = newlines s + newlines t :=
  List.count_append

/-- The decimal digits of a natural number, most significant first. -/
def decimal (n : Nat) : Text :=
  (Nat.toDigits 10 n).map fun c => c.toNat.toUInt8

/-- The decimal text of an integer, with a minus sign only below zero. -/
def ofInt : Int → Text
  | .ofNat n => decimal n
  | .negSucc n => utf8 "-" ++ decimal (n + 1)

/-- Texts set apart by a separator, which stands between neighbours only. -/
def join (separator : Text) : List Text → Text
  | [] => []
  | [t] => t
  | t :: rest => t ++ separator ++ join separator rest

/-- A join of one text is that text. -/
theorem join_singleton (separator t : Text) : join separator [t] = t := rfl

/-- The text with a line feed after it. -/
def line (t : Text) : Text := t ++ [lineFeed]

/-- Several lines, each ended by a line feed. -/
def unlines (ts : List Text) : Text := ts.flatMap line

/-- The digits `0` to `9`. -/
def isDigit (b : UInt8) : Bool := 0x30 ≤ b && b ≤ 0x39

/-- The letters `a` to `z`, `A` to `Z`, and the underscore. -/
def isLetter (b : UInt8) : Bool :=
  (0x61 ≤ b && b ≤ 0x7A) || (0x41 ≤ b && b ≤ 0x5A) || b == 0x5F

/-- The pieces of a text between the occurrences of a byte. -/
def splitOn (separator : UInt8) : Text → List Text
  | [] => [[]]
  | b :: rest =>
    if b = separator then [] :: splitOn separator rest
    else match splitOn separator rest with
      | piece :: more => (b :: piece) :: more
      | [] => [[b]]

/-- There is always at least one piece. -/
theorem splitOn_ne_nil (separator : UInt8) (t : Text) : splitOn separator t ≠ [] := by
  cases t with
  | nil => simp only [splitOn, ne_eq, reduceCtorEq, not_false_eq_true]
  | cons b rest =>
    rw [splitOn]
    split
    · simp only [ne_eq, reduceCtorEq, not_false_eq_true]
    · split <;> simp only [ne_eq, reduceCtorEq, not_false_eq_true]

/-- The text without the bytes of a class at its end. -/
def dropEndWhile (p : UInt8 → Bool) (t : Text) : Text := (t.reverse.dropWhile p).reverse

end Text

end Lox
