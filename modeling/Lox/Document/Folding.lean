import Lox.Document.Item
import Lox.Document.Stream

/-!
# Scalars over several lines

Plain and quoted scalars may go on over the end of a line. Blanks around the end
of a line are dropped; a single line end becomes a space, of several the first is
dropped. A scalar in a block keeps its lines, or folds them in the same way where
neither neighbour starts with a blank.
-/

namespace Lox.Document

/-- What has been read of a scalar, with blanks and line ends that count only if
more follows. All parts have their last character first. -/
structure Folding where
  /-- What is certain. -/
  text : List Nat
  /-- Blanks since then. -/
  blanks : List Nat
  /-- Whether a line ended since then. -/
  broken : Bool
  /-- The first end of a line since then, if it counts. -/
  lead : List Nat
  /-- The further ends of lines since then. -/
  trail : List Nat

namespace Folding

/-- Nothing has been read. -/
def empty : Folding := ⟨[], [], false, [], []⟩

/-- The blanks and line ends count. -/
def settle (f : Folding) : Folding :=
  let text :=
    if !f.broken then f.blanks ++ f.text
    else if f.lead = [feed] then
      if f.trail.isEmpty then space :: f.text else f.trail ++ f.text
    else f.trail ++ f.lead ++ f.text
  ⟨text, [], false, [], []⟩

/-- One more character of the text. -/
def add (f : Folding) (c : Nat) : Folding :=
  let settled := f.settle
  { settled with text := c :: settled.text }

/-- One more blank; after the end of a line it is dropped. -/
def addBlank (f : Folding) (c : Nat) : Folding :=
  if f.broken then f else { f with blanks := c :: f.blanks }

/-- One more end of a line. -/
def addBreak (f : Folding) (c : Nat) : Folding :=
  if f.broken then { f with trail := c :: f.trail }
  else { f with blanks := [], broken := true, lead := [c] }

/-- An end of a line that counts for nothing. -/
def dropBreak (f : Folding) : Folding := { f.settle with broken := true }

/-- The text that is certain. -/
def result (f : Folding) : Text := textOf f.text.reverse

end Folding

/-- A scalar that was read. -/
structure ReadScalar where
  /-- Its content. -/
  content : Text
  /-- Whether a line ended after its last character. -/
  lineEnded : Bool
  /-- The place after it. -/
  mark : Mark
  /-- What follows it. -/
  rest : List Nat

/-- Whether a document starts or ends in front of characters. -/
def atDocumentSign (m : Mark) (rest : List Nat) : Bool :=
  m.column == 0 && (atSign (utf8 "---") rest || atSign (utf8 "...") rest)

/-- Whether a character is one that brackets and braces use. -/
def isFlowSign (c : Nat) : Bool :=
  c == 0x2C || c == 0x5B || c == 0x5D || c == 0x7B || c == 0x7D

/-- Whether a plain scalar ends in front of a character: at a colon in front of a
gap, and inside brackets at the signs that brackets use. -/
def endsPlain (flow : Bool) (c : Nat) (rest : List Nat) : Bool :=
  (c == 0x3A && atGap rest) || (flow && (isFlowSign c || (c == 0x3F && atGap rest)))

/-- Whether a plain scalar does not go on after a gap: the line is indented too
little, a document starts or ends, or a comment starts. -/
def endsAfterGap (flow : Bool) (indent : Int) (m : Mark) (rest : List Nat) : Bool :=
  (!flow && (m.column : Int) < indent) || atDocumentSign m rest || rest.head? == some 0x23

/-- The rest of a plain scalar. -/
def readPlain (flow : Bool) (indent : Int) (start : Mark) :
    Folding → Bool → Mark → List Nat → Except Fault ReadScalar
  | f, _, m, [] => .ok ⟨f.result, f.broken, m, []⟩
  | f, afterGap, m, c :: rest =>
    if isBreak c then readPlain flow indent start (f.addBreak c) true m.nextLine rest
    else if isBlank c then
      if f.broken && (m.column : Int) < indent && c == tab then
        .error (.scanning start m "found a tab character that violates indentation")
      else readPlain flow indent start (f.addBlank c) true m.next rest
    else if (afterGap && endsAfterGap flow indent m (c :: rest)) || endsPlain flow c rest then
      .ok ⟨f.result, f.broken, m, c :: rest⟩
    else readPlain flow indent start (f.add c) false m.next rest

/-- The rest of a scalar in single quotes. A quote inside is written twice. -/
def readSingle (start : Mark) : Folding → Mark → List Nat → Except Fault ReadScalar
  | _, m, [] => .error (.scanning start m "found unexpected end of stream")
  | f, m, 0x27 :: 0x27 :: rest => readSingle start (f.add 0x27) (m.skip 2) rest
  | f, m, c :: rest =>
    if atDocumentSign m (c :: rest) then
      .error (.scanning start m "found unexpected document indicator")
    else if isBreak c then readSingle start (f.addBreak c) m.nextLine rest
    else if isBlank c then readSingle start (f.addBlank c) m.next rest
    else if c == 0x27 then .ok ⟨f.settle.result, false, m.next, rest⟩
    else readSingle start (f.add c) m.next rest

/-- The character that a letter after a backslash stands for. -/
def escaped? (c : Nat) : Option Nat :=
  match c with
  | 0x30 => some 0x00
  | 0x61 => some 0x07
  | 0x62 => some 0x08
  | 0x74 => some 0x09
  | 0x09 => some 0x09
  | 0x6E => some 0x0A
  | 0x76 => some 0x0B
  | 0x66 => some 0x0C
  | 0x72 => some 0x0D
  | 0x65 => some 0x1B
  | 0x20 => some 0x20
  | 0x22 => some 0x22
  | 0x27 => some 0x27
  | 0x2F => some 0x2F
  | 0x5C => some 0x5C
  | 0x4E => some 0x85
  | 0x5F => some 0xA0
  | 0x4C => some 0x2028
  | 0x50 => some 0x2029
  | _ => none

/-- How many hexadecimal digits follow a letter after a backslash. -/
def hexCount (c : Nat) : Nat :=
  if c == 0x78 then 2 else if c == 0x75 then 4 else if c == 0x55 then 8 else 0

/-- The value of a hexadecimal digit. -/
def hexDigit? (c : Nat) : Option Nat :=
  if 0x30 ≤ c && c ≤ 0x39 then some (c - 0x30)
  else if 0x61 ≤ c && c ≤ 0x66 then some (c - 0x57)
  else if 0x41 ≤ c && c ≤ 0x46 then some (c - 0x37)
  else none

/-- The number that the first characters spell in hexadecimal. -/
def hexNumber? (count : Nat) (rest : List Nat) : Option Nat :=
  if rest.length < count then none
  else (rest.take count).foldl (fun n c => do return 16 * (← n) + (← hexDigit? c)) (some 0)

/-- The character that an escape stands for, by the letter after the backslash and
what follows it. -/
def escape (start m : Mark) (c : Nat) (rest : List Nat) : Except Fault Nat :=
  let count := hexCount c
  if count = 0 then
    match escaped? c with
    | some code => .ok code
    | none => .error (.scanning start m "found unknown escape character")
  else match hexNumber? count rest with
    | none => .error (.scanning start m "did not find expected hexdecimal number")
    | some code =>
      if (0xD800 ≤ code && code ≤ 0xDFFF) || 0x10FFFF < code then
        .error (.scanning start m "found invalid Unicode character escape code")
      else .ok code

/-- The rest of a scalar in double quotes, after skipping the digits of an escape.
A backslash starts an escape, and takes away the end of its line. -/
def readDouble (start : Mark) : Nat → Folding → Mark → List Nat → Except Fault ReadScalar
  | _, _, m, [] => .error (.scanning start m "found unexpected end of stream")
  | skip + 1, f, m, _ :: rest => readDouble start skip f m.next rest
  | 0, f, m, 0x5C :: c :: rest =>
    if isBreak c then readDouble start 0 f.dropBreak m.next.nextLine rest
    else match escape start m c rest with
      | .error fault => .error fault
      | .ok code => readDouble start (hexCount c) (f.add code) (m.skip 2) rest
  | 0, f, m, c :: rest =>
    if atDocumentSign m (c :: rest) then
      .error (.scanning start m "found unexpected document indicator")
    else if isBreak c then readDouble start 0 (f.addBreak c) m.nextLine rest
    else if isBlank c then readDouble start 0 (f.addBlank c) m.next rest
    else if c == 0x22 then .ok ⟨f.settle.result, false, m.next, rest⟩
    else readDouble start 0 (f.add c) m.next rest

/-- What the ends of lines at the end of a block scalar count for. -/
inductive Chomping where
  /-- None is kept. -/
  | strip
  /-- One is kept. -/
  | clip
  /-- All are kept. -/
  | keep
  deriving DecidableEq, Repr

/-- Indentation and empty lines of a block scalar. -/
structure Margin where
  /-- The ends of the empty lines, the last one first. -/
  breaks : List Nat
  /-- The widest indentation met. -/
  widest : Nat
  /-- The place after it. -/
  mark : Mark
  /-- What follows it. -/
  rest : List Nat

/-- The empty lines and the indentation in front of a line of a block scalar; the
indentation is at most the given one, if that is not zero. -/
def readMargin (start : Mark) (indent : Nat) :
    List Nat → Nat → Mark → List Nat → Except Fault Margin
  | breaks, widest, m, [] => .ok ⟨breaks, max widest m.column, m, []⟩
  | breaks, widest, m, c :: rest =>
    let inside := indent = 0 || m.column < indent
    if c == space && inside then readMargin start indent breaks widest m.next rest
    else if c == tab && inside then
      .error (.scanning start m "found a tab character where an indentation space is expected")
    else if isBreak c then
      readMargin start indent (c :: breaks) (max widest m.column) m.nextLine rest
    else .ok ⟨breaks, max widest m.column, m, c :: rest⟩

/-- The lines of a block scalar, of which the last character comes first. The last
end of a line is kept apart, and so are the empty lines after it. -/
structure Lines where
  /-- The lines. -/
  text : List Nat
  /-- The end of the last line. -/
  lead : List Nat
  /-- The ends of empty lines after it. -/
  trail : List Nat
  /-- Whether the last line starts with a blank. -/
  startsBlank : Bool
  /-- The place after them. -/
  mark : Mark
  /-- What follows them. -/
  rest : List Nat

/-- The lines of a block scalar with the text in front of a further line, which
starts with a blank or not. -/
def Lines.joined (literal : Bool) (l : Lines) (blank : Bool) : List Nat :=
  let folds := !literal && !l.startsBlank && !blank && l.lead == [feed]
  let gap := if !folds then l.lead else if l.trail.isEmpty then [space] else []
  l.trail ++ gap ++ l.text

/-- Further lines of a block scalar, over a bounded count of lines. -/
def readLines (literal : Bool) (start : Mark) (indent : Nat) :
    Nat → Lines → Except Fault Lines
  | 0, l => .ok l
  | count + 1, l =>
    match l.rest with
    | [] => .ok l
    | c :: _ =>
      if l.mark.column ≠ indent then .ok l
      else
        let line := l.rest.takeWhile fun c => !isBreak c
        let after := l.rest.drop line.length
        let mark := l.mark.skip line.length
        let place := if after.isEmpty then mark else mark.nextLine
        match readMargin start indent [] 0 place (after.drop 1) with
        | .error fault => .error fault
        | .ok margin =>
          let text := line.reverse ++ l.joined literal (isBlank c)
          readLines literal start indent count
            ⟨text, after.take 1, margin.breaks, isBlank c, margin.mark, margin.rest⟩

/-- The signs after the one that starts a block scalar: a digit for the
indentation and a sign for the line ends, in any order. -/
def blockHeader (start m : Mark) (rest : List Nat) :
    Except Fault (Chomping × Nat × Mark × List Nat) :=
  let chomping? (c : Nat) : Option Chomping :=
    if c == 0x2B then some .keep else if c == 0x2D then some .strip else none
  let digit? (c : Nat) : Option Nat := if 0x30 ≤ c && c ≤ 0x39 then some (c - 0x30) else none
  let header : Chomping × Option Nat × Nat := match rest with
    | a :: b :: _ =>
      match chomping? a, digit? b, digit? a, chomping? b with
      | some chomping, some n, _, _ => (chomping, some n, 2)
      | some chomping, none, _, _ => (chomping, none, 1)
      | none, _, some n, some chomping => (chomping, some n, 2)
      | none, _, some n, none => (.clip, some n, 1)
      | none, _, none, _ => (.clip, none, 0)
    | [a] =>
      match chomping? a, digit? a with
      | some chomping, _ => (chomping, none, 1)
      | none, some n => (.clip, some n, 1)
      | none, none => (.clip, none, 0)
    | [] => (.clip, none, 0)
  let (chomping, increment, count) := header
  if increment = some 0 then
    .error (.scanning start (m.skip count) "found an indentation indicator equal to 0")
  else .ok (chomping, increment.getD 0, m.skip count, rest.drop count)

/-- The rest of a scalar in a block, by the indentation of what it stands in. -/
def readBlock (literal : Bool) (outer : Int) (start m : Mark) (rest : List Nat) :
    Except Fault ReadScalar := do
  let (chomping, increment, m, rest) ← blockHeader start m rest
  let blanks := rest.takeWhile isBlank
  let rest := rest.drop blanks.length
  let comment := if rest.head? == some 0x23 then rest.takeWhile (fun c => !isBreak c) else []
  let rest := rest.drop comment.length
  let m := m.skip (blanks.length + comment.length)
  if !rest.head?.all isBreak then
    .error (.scanning start m "did not find expected comment or line break")
  else
    let m := if rest.isEmpty then m else m.nextLine
    let given := if increment = 0 then 0 else (max outer 0).toNat + increment
    let margin ← readMargin start given [] 0 m (rest.drop 1)
    let indent := if given ≠ 0 then given else max (max margin.widest (outer + 1).toNat) 1
    let lines ← readLines literal start indent (margin.rest.length + 1)
      ⟨[], [], margin.breaks, false, margin.mark, margin.rest⟩
    let text := match chomping with
      | .strip => lines.text
      | .clip => lines.lead ++ lines.text
      | .keep => lines.trail ++ lines.lead ++ lines.text
    return ⟨textOf text.reverse, true, lines.mark, lines.rest⟩

end Lox.Document
