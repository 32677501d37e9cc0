import Lox.Document.Folding

/-!
# From characters to items

Items are found one after the other. A scalar that may be a key is kept in mind
until a colon confirms it; the item for the key then goes in front of it, and in
front of that the start of a mapping if the key is indented further than what it
stands in. A line that is indented less closes what was opened further right.
-/

namespace Lox.Document

/-- A place where a key may have started. -/
structure Candidate where
  /-- Whether nothing but a key can stand there. -/
  required : Bool
  /-- How many items stand in front of it. -/
  position : Nat
  /-- Where it is. -/
  mark : Mark
  deriving DecidableEq, Repr

/-- How far the characters of a document have been read. -/
structure Scanner where
  /-- Whether each line loses its first character. -/
  losing : Bool
  /-- The characters that are left. -/
  rest : List Nat
  /-- The place in front of them. -/
  mark : Mark
  /-- The indentation of the innermost open block; minus one outside of all. -/
  indent : Int
  /-- The indentations of what it stands in, the innermost first. -/
  outer : List Int
  /-- The candidates for a key, one for each open bracket, the innermost first. -/
  candidates : List (Option Candidate)
  /-- The candidate outside of all brackets, or of the innermost. -/
  candidate : Option Candidate
  /-- Whether a key may start here. -/
  keyAllowed : Bool
  /-- The items found so far. -/
  items : Array Placed

namespace Scanner

/-- Whether the place is inside brackets. -/
def inFlow (s : Scanner) : Bool := !s.candidates.isEmpty

/-- The start of a document. A byte order mark that is left in front takes away the
first character of every line. -/
def start (codes : List Nat) : Scanner :=
  ⟨codes.head? == some orderMark, codes, .origin, -1, [], [], none, true, #[]⟩

/-- One more item. -/
def push (s : Scanner) (item : Item) (mark : Mark) : Scanner :=
  { s with items := s.items.push ⟨item, mark⟩ }

/-- One more item of some characters of the line. -/
def take (s : Scanner) (count : Nat) (item : Item) : Scanner :=
  { s.push item s.mark with rest := s.rest.drop count, mark := s.mark.skip count }

/-- The place after gaps and comments, and whether a key may start there. -/
structure Reached where
  /-- Whether a key may start there. -/
  keyAllowed : Bool
  /-- The place. -/
  mark : Mark
  /-- What follows it. -/
  rest : List Nat

/-- How many characters have to be left for a line to lose one. -/
def lossWindow : Nat := 4

/-- Where in gaps and comments a place is. -/
inductive Passage where
  /-- At the start of a line, or where the gap starts. -/
  | fresh
  /-- In a gap. -/
  | gap
  /-- In a comment, which stands on a line of its own or after an item. -/
  | comment (own : Bool)
  /-- In a gap after a comment on a line of its own. -/
  | afterComment
  deriving DecidableEq, Repr

/-- Whether a tab is a gap: inside brackets, where no key may start, and between
comments on lines of their own. -/
def passesTab (flow allowed : Bool) (p : Passage) (rest : List Nat) : Bool :=
  flow || !allowed || (p = .afterComment && (rest.dropWhile isGap).head? == some 0x23)

/-- Gaps and comments are passed over. A new line outside of brackets may start a
key. -/
def passGaps (losing flow : Bool) : Passage → Bool → Mark → List Nat → Reached
  | _, allowed, m, [] => ⟨allowed, m, []⟩
  | p, allowed, m, c :: rest =>
    let inside := p = .afterComment
    if p = .fresh && losing && m.column == 0 && lossWindow ≤ rest.length + 1 then
      passGaps losing flow .gap allowed m.next rest
    else if isBreak c then
      let next := if inside || p = .comment true then .afterComment else .fresh
      passGaps losing flow next (allowed || !flow) m.nextLine rest
    else match p with
      | .comment own => passGaps losing flow (.comment own) allowed m.next rest
      | _ =>
        let next := if inside then .afterComment else .gap
        if c == 0x23 then passGaps losing flow (.comment allowed) allowed m.next rest
        else if c == space || (c == tab && passesTab flow allowed p rest) then
          passGaps losing flow next allowed m.next rest
        else ⟨allowed, m, c :: rest⟩

/-- The next item is reached. -/
def reach (s : Scanner) : Scanner :=
  let r := passGaps s.losing s.inFlow .fresh s.keyAllowed s.mark s.rest
  { s with keyAllowed := r.keyAllowed, mark := r.mark, rest := r.rest }

/-- The blocks that are indented further than a column are closed. -/
def closeTo (column : Int) (mark : Mark) : Int → List Int → Array Placed →
    Int × List Int × Array Placed
  | indent, [], items => (indent, [], items)
  | indent, outer :: more, items =>
    if column < indent then closeTo column mark outer more (items.push ⟨.blockEnd, mark⟩)
    else (indent, outer :: more, items)

/-- The blocks that are indented further than a column are closed, outside of
brackets only. -/
def unroll (s : Scanner) (column : Int) : Scanner :=
  if s.inFlow then s
  else
    let (indent, outer, items) := closeTo column s.mark s.indent s.outer s.items
    { s with indent, outer, items }

/-- A block is opened at a column, unless one is open there or the place is inside
brackets. The item goes to a position among the others. -/
def roll (s : Scanner) (column position : Nat) (item : Item) (mark : Mark) : Scanner :=
  if s.inFlow || (column : Int) ≤ s.indent then s
  else
    { s with
      indent := column, outer := s.indent :: s.outer,
      items := s.items.insertIdxIfInBounds position ⟨item, mark⟩ }

/-- The candidate for a key is given up, which is a fault if a key is required. -/
def dropCandidate (s : Scanner) : Except Fault Scanner :=
  match s.candidate with
  | some c =>
    if c.required then .error (.scanning c.mark s.mark "could not find expected ':'")
    else .ok { s with candidate := none }
  | none => .ok s

/-- The place is a candidate for a key, if one may start here. -/
def saveCandidate (s : Scanner) : Except Fault Scanner :=
  if s.keyAllowed then do
    let required := !s.inFlow && s.indent = s.mark.column
    let dropped ← s.dropCandidate
    return { dropped with candidate := some ⟨required, s.items.size, s.mark⟩ }
  else .ok s

/-- How long a key can be. -/
def keyLimit : Nat := 1024

/-- The candidate, if the place is still on its line and near it. -/
def confirmed? (s : Scanner) : Except Fault (Option Candidate) :=
  match s.candidate with
  | none => .ok none
  | some c =>
    if c.mark.line < s.mark.line || c.mark.index + keyLimit < s.mark.index then
      if c.required then .error (.scanning c.mark s.mark "could not find expected ':'")
      else .ok none
    else .ok (some c)

/-- An opening bracket or brace. -/
def openFlow (s : Scanner) (item : Item) : Except Fault Scanner := do
  let saved ← s.saveCandidate
  let opened := saved.take 1 item
  return { opened with
    candidates := saved.candidate :: saved.candidates, candidate := none, keyAllowed := true }

/-- A closing bracket or brace. -/
def closeFlow (s : Scanner) (item : Item) : Except Fault Scanner := do
  let dropped ← s.dropCandidate
  let closed := { dropped.take 1 item with keyAllowed := false }
  match dropped.candidates with
  | candidate :: more => return { closed with candidate, candidates := more }
  | [] => return closed

/-- A comma. -/
def flowEntry (s : Scanner) : Except Fault Scanner := do
  let dropped ← s.dropCandidate
  return { dropped.take 1 .flowEntry with keyAllowed := true }

/-- A dash in front of a member. -/
def blockEntry (s : Scanner) : Except Fault Scanner :=
  if !s.inFlow && !s.keyAllowed then
    .error (.scanning s.mark s.mark "block sequence entries are not allowed in this context")
  else do
    let rolled := s.roll s.mark.column s.items.size .blockListStart s.mark
    let dropped ← rolled.dropCandidate
    return { dropped.take 1 .blockEntry with keyAllowed := true }

/-- A question mark in front of a key. -/
def keySign (s : Scanner) : Except Fault Scanner :=
  if !s.inFlow && !s.keyAllowed then
    .error (.scanning s.mark s.mark "mapping keys are not allowed in this context")
  else do
    let rolled := s.roll s.mark.column s.items.size .blockMappingStart s.mark
    let dropped ← rolled.dropCandidate
    return { dropped.take 1 .key with keyAllowed := !s.inFlow }

/-- A colon: what stands in front of it on the line is a key. -/
def valueSign (s : Scanner) : Except Fault Scanner := do
  match ← s.confirmed? with
  | some c =>
    let keyed := { s with items := s.items.insertIdxIfInBounds c.position ⟨.key, c.mark⟩ }
    let rolled := keyed.roll c.mark.column c.position .blockMappingStart c.mark
    return { rolled.take 1 .value with candidate := none, keyAllowed := false }
  | none =>
    if s.inFlow then return { s.take 1 .value with candidate := none, keyAllowed := false }
    else if !s.keyAllowed then
      .error (.scanning s.mark s.mark "mapping values are not allowed in this context")
    else
      let rolled := s.roll s.mark.column s.items.size .blockMappingStart s.mark
      return { rolled.take 1 .value with candidate := none, keyAllowed := true }

/-- The characters of a name. -/
def isNameCharacter (c : Nat) : Bool :=
  (0x30 ≤ c && c ≤ 0x39) || (0x41 ≤ c && c ≤ 0x5A) || (0x61 ≤ c && c ≤ 0x7A) ||
    c == 0x5F || c == 0x2D

/-- Whether a name may end in front of characters. -/
def endsName (rest : List Nat) : Bool :=
  atGap rest || rest.head?.any fun c =>
    c == 0x3F || c == 0x3A || c == 0x2C || c == 0x5D || c == 0x7D || c == 0x25 || c == 0x40 ||
      c == 0x60

/-- A name for a node, or the name of one. -/
def named (s : Scanner) (item : Text → Item) : Except Fault Scanner := do
  let saved ← s.saveCandidate
  let name := (s.rest.drop 1).takeWhile isNameCharacter
  let taken := { saved.take (name.length + 1) (item (textOf name)) with keyAllowed := false }
  if name.isEmpty || !endsName taken.rest then
    .error (.scanning s.mark taken.mark "did not find expected alphabetic or numeric character")
  else return taken

/-- The long form of the names that start with two exclamation marks. -/
def longForm : Text := utf8 "tag:yaml.org,2002:"

/-- The short form of a type's name. -/
def shortForm (name : Text) : Text :=
  if longForm.isPrefixOf name then utf8 "!!" ++ name.drop longForm.length else name

/-- The type of a node. -/
def tagged (s : Scanner) : Except Fault Scanner := do
  let saved ← s.saveCandidate
  let name := s.rest.takeWhile fun c => !isGap c && !(s.inFlow && isFlowSign c)
  let text := textOf name
  let inner := (text.drop 2).dropLast
  let tag := if (utf8 "!<").isPrefixOf text then shortForm inner else text
  return { saved.take name.length (.tag tag) with keyAllowed := false }

/-- A scalar that was read. -/
def scalar (s : Scanner) (isPlain : Bool) (r : ReadScalar) (keyAllowed : Bool) : Scanner :=
  { s.push (.scalar isPlain r.content) s.mark with rest := r.rest, mark := r.mark, keyAllowed }

/-- A plain scalar. A key may follow it on a new line. -/
def plainScalar (s : Scanner) : Except Fault Scanner := do
  let saved ← s.saveCandidate
  let r ← readPlain s.inFlow (s.indent + 1) s.mark .empty false s.mark s.rest
  return saved.scalar true r r.lineEnded

/-- A scalar in quotes. -/
def quotedScalar (s : Scanner) (single : Bool) : Except Fault Scanner := do
  let saved ← s.saveCandidate
  let after := s.rest.drop 1
  let r ← if single then readSingle s.mark .empty s.mark.next after
    else readDouble s.mark 0 .empty s.mark.next after
  return saved.scalar false r false

/-- A scalar in a block of its own. -/
def blockScalar (s : Scanner) (literal : Bool) : Except Fault Scanner := do
  let dropped ← s.dropCandidate
  let r ← readBlock literal s.indent s.mark s.mark.next (s.rest.drop 1)
  return dropped.scalar false r true

/-- The blocks are closed in front of a sign at the start of a line. -/
def closeAll (s : Scanner) : Except Fault Scanner := do
  let dropped ← (s.unroll (-1)).dropCandidate
  return { dropped with keyAllowed := false }

/-- The end of the characters. -/
def finish (s : Scanner) : Except Fault Scanner := do
  let m := if s.mark.column = 0 then s.mark else ⟨s.mark.line + 1, 0, s.mark.index⟩
  let closed ← { s with mark := m }.closeAll
  return closed.push .streamEnd m

/-- Whether a plain scalar can start with a character. -/
def startsPlain (flow : Bool) (c : Nat) (rest : List Nat) : Bool :=
  !(isGap c || (utf8 "-?:,[]\x7b\x7d#&*!|>'\"%@`").any fun b => b.toNat == c) ||
    (c == 0x2D && !rest.head?.any isBlank) ||
    (!flow && (c == 0x3F || c == 0x3A) && !atGap rest)

/-- The item that a character starts. -/
def itemAt (s : Scanner) (c : Nat) (rest : List Nat) : Except Fault Scanner :=
  let signGap := s.inFlow || atGap rest
  if c == 0x5B then s.openFlow .flowListStart
  else if c == 0x7B then s.openFlow .flowMappingStart
  else if c == 0x5D then s.closeFlow .flowListEnd
  else if c == 0x7D then s.closeFlow .flowMappingEnd
  else if c == 0x2C then s.flowEntry
  else if c == 0x2D && atGap rest then s.blockEntry
  else if c == 0x3F && signGap then s.keySign
  else if c == 0x3A && signGap then s.valueSign
  else if c == 0x2A then s.named .reference
  else if c == 0x26 then s.named .anchor
  else if c == 0x21 then s.tagged
  else if c == 0x7C && !s.inFlow then s.blockScalar true
  else if c == 0x3E && !s.inFlow then s.blockScalar false
  else if c == 0x27 then s.quotedScalar true
  else if c == 0x22 then s.quotedScalar false
  else if startsPlain s.inFlow c rest then s.plainScalar
  else .error (.scanning s.mark s.mark "found character that cannot start any token")

/-- One more item is found. -/
def step (s : Scanner) : Except Fault Scanner := do
  let reached := s.reach
  let here := reached.unroll reached.mark.column
  let atStart := here.mark.column == 0
  match here.rest with
  | [] => here.finish
  | c :: rest =>
    if atStart && c == 0x25 then
      let closed ← here.closeAll
      return closed.take (here.rest.takeWhile fun c => !isBreak c).length .directive
    else if atStart && atSign (utf8 "---") here.rest then
      return (← here.closeAll).take 3 .documentStart
    else if atStart && atSign (utf8 "...") here.rest then
      return (← here.closeAll).take 3 .documentEnd
    else here.itemAt c rest

/-- How many items in front of a fault are not looked at. -/
def lookahead : Nat := 2

/-- The items, over a bounded count of steps. A fault hides the last items in front
of it. -/
def run : Nat → Scanner → List Placed
  | 0, s => s.items.toList
  | count + 1, s =>
    match s.step with
    | .error fault =>
      let seen := s.items.toList
      seen.take (seen.length - lookahead) ++ [⟨.fault fault, s.mark⟩]
    | .ok next =>
      if next.items.back?.any fun p => p.item = .streamEnd then next.items.toList
      else run count next

end Scanner

/-- The items of a document. Every item takes at least one character. -/
def items (codes : List Nat) : List Placed := (Scanner.start codes).run (codes.length + 1)

end Lox.Document
