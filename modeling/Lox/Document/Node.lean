import Lox.Document.Scalar
import Lox.Document.Scan

/-!
# Documents

A document is a tree of scalars, lists and mappings with the lines they start on.
Nodes may be named and stand again elsewhere. A mapping keeps all its keys,
repeated ones included. Of several documents in a text only the first is read.
-/

namespace Lox.Document

/-- A node of a document. -/
inductive Node where
  /-- A scalar, by the line it starts on, its type and its content. -/
  | scalar (line : Nat) (tag : Tag) (text : Text)
  /-- A list, by the line it starts on, its type and its members. -/
  | list (line : Nat) (tag : Tag) (members : List Node)
  /-- A mapping, by the line it starts on, its type, and its keys and values in
  order. -/
  | mapping (line : Nat) (tag : Tag) (entries : List (Node × Node))
  /-- A node that stands elsewhere, by the line of its name, its name and itself. -/
  | reference (line : Nat) (name : Text) (node : Node)

namespace Node

/-- The node itself, for one that stands elsewhere. -/
def target : Node → Node
  | reference _ _ node => node.target
  | node => node

/-- The line a node starts on. -/
def line : Node → Nat
  | scalar n _ _ | list n _ _ | mapping n _ _ | reference n _ _ => n

/-- What tells a node from others of its kind. -/
def label : Node → Text
  | scalar _ _ t | reference _ t _ => t
  | list _ _ _ | mapping _ _ _ => []

/-- Whether two nodes are the same as keys: they are of one kind and have one
label. -/
def isSameKey (a b : Node) : Bool :=
  match a, b with
  | scalar _ _ _, scalar _ _ _ | list _ _ _, list _ _ _ | mapping _ _ _, mapping _ _ _
  | reference _ _ _, reference _ _ _ => a.label == b.label
  | _, _ => false

end Node

/-- What is left to read of a document, and the names of its nodes. -/
structure Reader where
  /-- The items that are left. -/
  items : List Placed
  /-- The nodes that have a name, the newest first. -/
  named : List (Text × Node)

/-- Reading items may meet a fault. -/
abbrev Read := StateT Reader (Except Fault)

namespace Read

/-- The next item, which stays. -/
def peek : Read Placed := do
  match (← get).items with
  | [] => return ⟨.streamEnd, Mark.origin⟩
  | ⟨.fault f, _⟩ :: _ => throw f
  | p :: _ => return p

/-- The next item is passed. -/
def advance : Read Unit := modify fun r => { r with items := r.items.drop 1 }

/-- A node gets a name. -/
def name (anchor : Option Text) (node : Node) : Read Node := do
  match anchor with
  | some t => modify fun r => { r with named := (t, node) :: r.named }
  | none => pure ()
  return node

/-- The node with a name. -/
def lookUp (line : Nat) (t : Text) : Read Node := do
  match (← get).named.find? fun e => e.1 == t with
  | some (_, node) => return .reference line t node
  | none => throw (.placeless (utf8 "unknown anchor '" ++ t ++ utf8 "' referenced"))

end Read

/-- The name and the type in front of a node. -/
structure Properties where
  /-- The name. -/
  anchor : Option Text
  /-- The type. -/
  tag : Option Text

/-- Whether nothing stands in front of a node. -/
def Properties.isEmpty (p : Properties) : Bool := p.anchor.isNone && p.tag.isNone

/-- The type of a node, by the type it has if none is given. -/
def Properties.tagOr (p : Properties) (usual : Tag) : Tag :=
  match p.tag with
  | none => usual
  | some t => if t == utf8 "!" then usual else .ofName t

/-- The name and the type in front of a node, in any order. -/
def properties : Read Properties := do
  match (← Read.peek).item with
  | .anchor name =>
    Read.advance
    match (← Read.peek).item with
    | .tag t => do Read.advance; return ⟨some name, some t⟩
    | _ => return ⟨some name, none⟩
  | .tag t =>
    Read.advance
    match (← Read.peek).item with
    | .anchor name => do Read.advance; return ⟨some name, some t⟩
    | _ => return ⟨none, some t⟩
  | _ => return ⟨none, none⟩

/-- The node of a value that is missing. -/
def nothing (m : Mark) : Node := .scalar (m.line + 1) .null []

/-- Whether a value is missing in front of an item of a block. -/
def Item.endsEntry : Item → Bool
  | key | value | blockEnd => true
  | _ => false

/-- What stands where there is no content: nothing but properties. -/
def readRest (p : Properties) (start m : Mark) : Read Node :=
  if p.isEmpty then throw (.ordering start m "did not find expected node content")
  else Read.name p.anchor (.scalar (start.line + 1) (p.tagOr .null) [])

mutual

/-- A node. In a block it may be a block itself, and as a value a list that is not
indented. -/
def readNode (block flush : Bool) : Nat → Read Node
  | 0 => throw (.placeless [])
  | fuel + 1 => do
    let first ← Read.peek
    let line := first.mark.line + 1
    match first.item with
    | .reference t =>
      Read.advance
      Read.lookUp line t
    | _ =>
      let p ← properties
      let here ← Read.peek
      match here.item with
      | .scalar isPlain text =>
        Read.advance
        let usual := if isPlain then Spelling.tag text else .string
        Read.name p.anchor (.scalar line (p.tagOr usual) text)
      | .flowListStart =>
        Read.advance
        Read.name p.anchor (.list line (p.tagOr .list) (← readFlowMembers here.mark true fuel))
      | .flowMappingStart =>
        Read.advance
        Read.name p.anchor
          (.mapping line (p.tagOr .mapping) (← readFlowEntries here.mark true fuel))
      | .blockListStart =>
        if !block then readRest p first.mark here.mark
        else
          Read.advance
          Read.name p.anchor (.list line (p.tagOr .list) (← readMembers here.mark fuel))
      | .blockMappingStart =>
        if !block then readRest p first.mark here.mark
        else
          Read.advance
          Read.name p.anchor (.mapping line (p.tagOr .mapping) (← readEntries here.mark fuel))
      | .blockEntry =>
        if !flush then readRest p first.mark here.mark
        else Read.name p.anchor (.list line (p.tagOr .list) (← readFlush fuel))
      | _ => readRest p first.mark here.mark

/-- The members of a list in a block. -/
def readMembers (start : Mark) : Nat → Read (List Node)
  | 0 => throw (.placeless [])
  | fuel + 1 => do
    let here ← Read.peek
    match here.item with
    | .blockEntry =>
      Read.advance
      let after ← Read.peek
      let member ← match after.item with
        | .blockEntry | .blockEnd => pure (nothing here.mark)
        | _ => readNode true false fuel
      return member :: (← readMembers start fuel)
    | .blockEnd =>
      Read.advance
      return []
    | _ => throw (.ordering start here.mark "did not find expected '-' indicator")

/-- The members of a list that is not indented. -/
def readFlush : Nat → Read (List Node)
  | 0 => throw (.placeless [])
  | fuel + 1 => do
    let here ← Read.peek
    match here.item with
    | .blockEntry =>
      Read.advance
      let after ← Read.peek
      let member ←
        if after.item = .blockEntry || after.item.endsEntry then pure (nothing here.mark)
        else readNode true false fuel
      return member :: (← readFlush fuel)
    | _ => return []

/-- The entries of a mapping in a block. -/
def readEntries (start : Mark) : Nat → Read (List (Node × Node))
  | 0 => throw (.placeless [])
  | fuel + 1 => do
    let here ← Read.peek
    match here.item with
    | .key =>
      Read.advance
      let after ← Read.peek
      let key ←
        if after.item.endsEntry then pure (nothing here.mark) else readNode true true fuel
      let sign ← Read.peek
      let value ←
        if sign.item = .value then do
          Read.advance
          let after ← Read.peek
          if after.item.endsEntry then pure (nothing sign.mark) else readNode true true fuel
        else pure (nothing sign.mark)
      return (key, value) :: (← readEntries start fuel)
    | .blockEnd =>
      Read.advance
      return []
    | _ => throw (.ordering start here.mark "did not find expected key")

/-- The value after a key inside brackets. -/
def readFlowValue (closing : Item) : Nat → Read Node
  | 0 => throw (.placeless [])
  | fuel + 1 => do
    let sign ← Read.peek
    if sign.item = .value then
      Read.advance
      let after ← Read.peek
      if after.item = .flowEntry || after.item = closing then return nothing after.mark
      else readNode false false fuel
    else return nothing sign.mark

/-- The members of a list in brackets. A key with a value is a mapping of its own. -/
def readFlowMembers (start : Mark) (first : Bool) : Nat → Read (List Node)
  | 0 => throw (.placeless [])
  | fuel + 1 => do
    if (← Read.peek).item = .flowListEnd then
      Read.advance
      return []
    else
      if !first then
        let here ← Read.peek
        if here.item = .flowEntry then Read.advance
        else throw (.ordering start here.mark "did not find expected ',' or ']'")
      let here ← Read.peek
      if here.item = .flowListEnd then
        Read.advance
        return []
      else if here.item = .key then
        Read.advance
        let after ← Read.peek
        let key ←
          if after.item = .value || after.item = .flowEntry || after.item = .flowListEnd then
            pure (nothing after.mark)
          else readNode false false fuel
        let value ← readFlowValue .flowListEnd fuel
        let member := .mapping (here.mark.line + 1) .mapping [(key, value)]
        return member :: (← readFlowMembers start false fuel)
      else
        let member ← readNode false false fuel
        return member :: (← readFlowMembers start false fuel)

/-- The entries of a mapping in braces. A key may stand without a value. -/
def readFlowEntries (start : Mark) (first : Bool) : Nat → Read (List (Node × Node))
  | 0 => throw (.placeless [])
  | fuel + 1 => do
    if (← Read.peek).item = .flowMappingEnd then
      Read.advance
      return []
    else
      if !first then
        let here ← Read.peek
        if here.item = .flowEntry then Read.advance
        else throw (.ordering start here.mark "did not find expected ',' or '\x7d'")
      let here ← Read.peek
      if here.item = .flowMappingEnd then
        Read.advance
        return []
      else if here.item = .key then
        Read.advance
        let after ← Read.peek
        let key ←
          if after.item = .value || after.item = .flowEntry || after.item = .flowMappingEnd then
            pure (nothing after.mark)
          else readNode false false fuel
        let value ← readFlowValue .flowMappingEnd fuel
        return (key, value) :: (← readFlowEntries start false fuel)
      else
        let key ← readNode false false fuel
        let after ← Read.peek
        return (key, nothing after.mark) :: (← readFlowEntries start false fuel)

end

/-- The lines about a document are passed, of which there are at most as many as
items. -/
def passDirectives : Nat → Read Unit
  | 0 => return ()
  | fuel + 1 => do
    if (← Read.peek).item = .directive then
      Read.advance
      passDirectives fuel
    else return ()

/-- Whether an item leaves a document that has started empty. -/
def Item.endsDocument : Item → Bool
  | directive | documentStart | documentEnd | streamEnd => true
  | _ => false

/-- The first document, if there is one. -/
def readDocument (fuel : Nat) : Read (Option Node) := do
  let first ← Read.peek
  passDirectives fuel
  let here ← Read.peek
  let node ← match here.item with
    | .streamEnd =>
      if first.item = .directive then
        throw (.ordering .origin here.mark "did not find expected <document start>")
      else pure none
    | .documentStart =>
      Read.advance
      let after ← Read.peek
      if after.item.endsDocument then pure (some (nothing after.mark))
      else some <$> readNode true false fuel
    | _ =>
      if first.item = .directive then
        throw (.ordering .origin here.mark "did not find expected <document start>")
      else some <$> readNode true false fuel
  let _ ← Read.peek
  return node

/-- The first document in a text. Every recursive step takes an item, or leaves one
that the step above takes. -/
def read (t : Text) : Except Fault (Option Node) :=
  match characters t with
  | .error fault => .error (.placeless fault.text)
  | .ok codes =>
    let all := items codes
    (readDocument (4 * all.length + 16) |>.run ⟨all, []⟩).map Prod.fst

end Lox.Document
