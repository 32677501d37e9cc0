import Lox.Text

/-!
# Items of a document

The items that the characters of a document make up: the signs of its structure
and its scalars, each with the place where it starts. Indentation is turned into
items that open and close blocks.
-/

namespace Lox.Document

/-- A place in a document, counted from zero. -/
structure Mark where
  /-- The line. -/
  line : Nat
  /-- The position in the line. -/
  column : Nat
  /-- The position in the document. -/
  index : Nat
  deriving DecidableEq, Repr

namespace Mark

/-- The start of a document. -/
def origin : Mark := ⟨0, 0, 0⟩

/-- The place after a character. -/
def next (m : Mark) : Mark := ⟨m.line, m.column + 1, m.index + 1⟩

/-- The place after a number of characters of one line. -/
def skip (m : Mark) (count : Nat) : Mark := ⟨m.line, m.column + count, m.index + count⟩

/-- The place after the end of a line. -/
def nextLine (m : Mark) : Mark := ⟨m.line + 1, 0, m.index + 1⟩

end Mark

/-- Why characters are no document. -/
structure Fault where
  /-- Whether it was found in the characters, and not in the order of items. -/
  inCharacters : Bool
  /-- The line of what it belongs to, counted from zero. -/
  context : Nat
  /-- The line where it was found, counted from zero. -/
  found : Nat
  /-- What is wrong. -/
  text : Text
  deriving DecidableEq, Repr

namespace Fault

/-- A fault in the characters, by the place it belongs to and the place where it
was found. -/
def scanning (context found : Mark) (text : String) : Fault :=
  ⟨true, context.line, found.line, utf8 text⟩

/-- A fault in the order of items. -/
def ordering (context found : Mark) (text : String) : Fault :=
  ⟨false, context.line, found.line, utf8 text⟩

/-- A fault without a place. -/
def placeless (text : Text) : Fault := ⟨false, 0, 0, text⟩

/-- The message of a fault. The line it belongs to goes before the line where it
was found, and the first line is not named. -/
def message (f : Fault) : Text :=
  let line := if f.context ≠ 0 then f.context else f.found
  let shown := if f.inCharacters then line + 1 else line
  (if line = 0 then [] else utf8 "line " ++ Text.decimal shown ++ utf8 ": ") ++ f.text

end Fault

/-- An item of a document. -/
inductive Item where
  /-- A line about the document, in front of it. -/
  | directive
  /-- The sign in front of a document. -/
  | documentStart
  /-- The sign after a document. -/
  | documentEnd
  /-- The end of all documents. -/
  | streamEnd
  /-- Members of a list follow, each on a line of its own. -/
  | blockListStart
  /-- Entries of a mapping follow, each on a line of its own. -/
  | blockMappingStart
  /-- The lines of a list or mapping are over. -/
  | blockEnd
  /-- An opening bracket. -/
  | flowListStart
  /-- A closing bracket. -/
  | flowListEnd
  /-- An opening brace. -/
  | flowMappingStart
  /-- A closing brace. -/
  | flowMappingEnd
  /-- A dash in front of a member. -/
  | blockEntry
  /-- A comma. -/
  | flowEntry
  /-- A key follows. -/
  | key
  /-- A value follows. -/
  | value
  /-- The name of a node that stands elsewhere. -/
  | reference (name : Text)
  /-- A name for the node that follows. -/
  | anchor (name : Text)
  /-- The type of the node that follows. -/
  | tag (name : Text)
  /-- A scalar, quoted or in a block of its own if it is not plain. -/
  | scalar (isPlain : Bool) (text : Text)
  /-- Nothing can be told beyond this point. -/
  | fault (f : Fault)
  deriving DecidableEq, Repr

/-- An item and where it starts. -/
structure Placed where
  /-- The item. -/
  item : Item
  /-- Where it starts. -/
  mark : Mark
  deriving DecidableEq, Repr

end Lox.Document
