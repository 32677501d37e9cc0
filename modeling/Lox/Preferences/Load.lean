import Lox.Directory
import Lox.Document.Node
import Lox.Preferences

/-!
# Loading preferences

A document sets preferences by name over the defaults. Names that are none are
passed over, and so are null values. A string preference takes any scalar as it
is written; a truth value may also be spelled as a word for on and off. Values of
another type are problems, and the other preferences are set all the same; a
repeated name is a problem that sets nothing. Mappings that are merged into the
document set what it does not set itself.
-/

namespace Lox

open Document (Node Tag Spelling.undatedTag Spelling.isTimestamp Spelling.trueWords)

/-- Why part of a document sets no preference. -/
inductive DocumentProblem where
  /-- A value has another type than its place. -/
  | mistyped (line : Nat) (tag : Tag) (text : Text) (target : Text)
  /-- A name stands twice in a mapping. -/
  | repeated (line : Nat) (name : Text) (first : Nat)
  deriving DecidableEq

namespace DocumentProblem

/-- A scalar's content in a message: a long one is cut short. -/
def excerpt (t : Text) : Text :=
  utf8 " `" ++ (if 10 < t.length then t.take 7 ++ utf8 "..." else t) ++ utf8 "`"

/-- The text of a problem. -/
def text : DocumentProblem → Text
  | mistyped line tag content target =>
    utf8 "line " ++ Text.decimal line ++ utf8 ": cannot unmarshal " ++ tag.name ++
      (if tag = .list ∨ tag = .mapping then [] else excerpt content) ++
      utf8 " into " ++ target
  | repeated line name first =>
    utf8 "line " ++ Text.decimal line ++ utf8 ": mapping key " ++ Quoted.quote name ++
      utf8 " already defined at line " ++ Text.decimal first

end DocumentProblem

/-- Why a document as a whole is not taken. -/
inductive Refusal where
  /-- A scalar is not spelled like the type it is given. -/
  | misspelled (spelled given : Tag) (text : Text)
  /-- Something else than mappings is to be merged. -/
  | notMergeable
  deriving DecidableEq

/-- The text of a refusal. -/
def Refusal.text : Refusal → Text
  | misspelled spelled given content =>
    utf8 "cannot decode " ++ spelled.name ++ utf8 " `" ++ content ++ utf8 "` as a " ++ given.name
  | notMergeable => utf8 "map merge requires map or sequence of maps as the value"

/-- What a scalar stands for. -/
inductive Meaning where
  /-- Nothing. -/
  | null
  /-- A truth value. -/
  | bool (b : Bool)
  /-- A text. -/
  | text (t : Text)
  /-- Something else. -/
  | other
  deriving DecidableEq

/-- What a scalar stands for, by its type and its content. A type other than that
of strings has to be spelled; whole numbers are decimal numbers too. -/
def meaning (tag : Tag) (content : Text) : Except Refusal Meaning :=
  if !tag.isSpelled then .ok (.text content)
  else
    let spelled := if tag = .timestamp && Spelling.isTimestamp content then .timestamp
      else Spelling.undatedTag content
    if spelled ≠ tag ∧ ¬ (tag = .float ∧ spelled = .int) then
      .error (.misspelled spelled tag content)
    else .ok (match tag with
      | .null => .null
      | .bool => .bool (Spelling.trueWords.contains content)
      | _ => .other)

/-- The problems of keys that stand again further on. -/
def repeatedKeys : List (Node × Node) → List DocumentProblem
  | [] => []
  | (key, _) :: rest =>
    (rest.filter fun e => key.isSameKey e.1).map
      (fun e => .repeated e.1.line e.1.label key.line) ++ repeatedKeys rest

/-- The problems of a node that has another type than its place. -/
def problemsOf (target : Text) : Node → List DocumentProblem
  | .scalar line tag content => [.mistyped line tag content target]
  | .list line tag _ => [.mistyped line tag [] target]
  | .mapping line tag entries =>
    match repeatedKeys entries with
    | [] => [.mistyped line tag [] target]
    | problems => problems
  | .reference _ _ node => problemsOf target node

/-- The words for on. -/
def onWords : List Text := ["y", "Y", "yes", "Yes", "YES", "on", "On", "ON"].map utf8

/-- The words for off. -/
def offWords : List Text := ["n", "N", "no", "No", "NO", "off", "Off", "OFF"].map utf8

/-- What a node gives: a value, nothing, or problems. -/
inductive Given (α : Type) where
  /-- A value. -/
  | value (a : α)
  /-- Nothing, so that what was there stays. -/
  | nothing
  /-- Problems. -/
  | problems (ps : List DocumentProblem)

/-- The text that a node gives. -/
def givenText (node : Node) : Except Refusal (Given Text) :=
  match node.target with
  | .scalar _ tag content => do
    match ← meaning tag content with
    | .null => return .nothing
    | _ => return .value content
  | other => .ok (.problems (problemsOf (utf8 "string") other))

/-- The truth value that a node gives. -/
def givenBool (node : Node) : Except Refusal (Given Bool) :=
  let bad := Given.problems (problemsOf (utf8 "bool") node)
  match node.target with
  | .scalar _ tag content => do
    match ← meaning tag content with
    | .null => return .nothing
    | .bool b => return .value b
    | .text t =>
      if onWords.contains t then return .value true
      else if offWords.contains t then return .value false
      else return bad
    | .other => return bad
  | _ => .ok bad

/-- Preferences while a document sets them. -/
structure Setting where
  /-- The preferences so far. -/
  preferences : Preferences
  /-- The problems so far. -/
  problems : List DocumentProblem
  /-- Why the document is not taken, if it is not. -/
  refusal : Option Refusal
  /-- The names that are set already, if mappings are being merged. -/
  taken : Option (List Text)

namespace Setting

/-- Further problems. -/
def report (s : Setting) (ps : List DocumentProblem) : Setting :=
  { s with problems := s.problems ++ ps }

/-- A preference is set by what a node gives. -/
def put {α : Type} (s : Setting) (update : Preferences → α → Preferences) :
    Except Refusal (Given α) → Setting
  | .ok (.value a) => { s with preferences := update s.preferences a }
  | .ok .nothing => s
  | .ok (.problems ps) => s.report ps
  | .error refusal => { s with refusal := some refusal }

/-- The preference with a name is set. -/
def putNamed (s : Setting) (name : Text) (value : Node) : Setting :=
  if name = utf8 "log_level" then
    s.put (fun p t => { p with logLevel := t }) (givenText value)
  else if name = utf8 "color" then
    s.put (fun p b => { p with color := b }) (givenBool value)
  else if name = utf8 "prompt" then
    s.put (fun p t => { p with prompt := t }) (givenText value)
  else if name = utf8 "history_file" then
    s.put (fun p t => { p with historyFile := t }) (givenText value)
  else s

/-- The preference with a name is set, unless mappings are being merged and it is
set already. -/
def putFresh (s : Setting) (name : Text) (value : Node) : Setting :=
  match s.taken with
  | none => s.putNamed name value
  | some names =>
    if names.contains name then s
    else { s with taken := some (name :: names) }.putNamed name value

/-- One entry of a mapping sets a preference. -/
def putEntry (s : Setting) (key value : Node) : Setting :=
  if s.refusal.isSome then s
  else match givenText key with
    | .ok (.value name) => s.putFresh name value
    | .ok .nothing => s
    | .ok (.problems ps) => s.report ps
    | .error refusal => { s with refusal := some refusal }

end Setting

/-- Whether a key says that its value is to be merged. -/
def isMergeKey : Node → Bool
  | .scalar _ .merge content => content == utf8 "<<"
  | _ => false

/-- The names that keys are. -/
def keyNames (entries : List (Node × Node)) : List Text :=
  entries.filterMap fun e =>
    match e.1.target with
    | .scalar _ _ content => some content
    | _ => none

/-- What a merged value consists of: a mapping, or a list of such. -/
def mergedNodes (node : Node) : List Node :=
  match node.target with
  | .list _ _ members => match node with
    | .reference _ _ _ => [node]
    | _ => members
  | _ => [node]

/-- The entries of a mapping set preferences in order, and then what is merged into
it does, over a bounded depth. -/
def setMapping : Nat → List (Node × Node) → Setting → Setting
  | 0, _, s => s
  | depth + 1, entries, s =>
    match repeatedKeys entries with
    | p :: ps => s.report (p :: ps)
    | [] =>
      let own := entries.filter fun e => !isMergeKey e.1
      let after := own.foldl (fun s e => s.putEntry e.1 e.2) s
      match (entries.filter fun e => isMergeKey e.1).getLast? with
      | none => after
      | some (_, merged) =>
        let names := after.taken.getD (keyNames entries)
        let mergeOne (s : Setting) (node : Node) : Setting :=
          if s.refusal.isSome then s
          else match node.target with
            | .mapping _ _ inner => setMapping depth inner s
            | _ => { s with refusal := some .notMergeable }
        (mergedNodes merged).foldl mergeOne { after with taken := some names }

/-- A document sets preferences over given ones. -/
def Preferences.set (p : Preferences) (depth : Nat) (document : Option Node) : Setting :=
  let start : Setting := ⟨p, [], none, none⟩
  match document.map Node.target with
  | none => start
  | some (.mapping _ _ entries) => setMapping depth entries start
  | some (.scalar line tag content) =>
    match meaning tag content with
    | .ok .null => start
    | .ok _ => start.report (problemsOf (utf8 "config.Config") (.scalar line tag content))
    | .error refusal => { start with refusal := some refusal }
  | some node => start.report (problemsOf (utf8 "config.Config") node)

/-- Why preferences could not be loaded. -/
inductive LoadCause where
  /-- The file cannot be read. -/
  | unreadable (failure : FileFailure)
  /-- The file holds no document. -/
  | malformed (fault : Document.Fault)
  /-- The document is not taken. -/
  | refused (refusal : Refusal)
  /-- The document has problems. -/
  | unfit (problems : List DocumentProblem)
  /-- The preferences cannot be used. -/
  | unusable (error : PreferenceError)

/-- Why the preferences in a file could not be loaded. -/
structure LoadError where
  /-- The path of the file. -/
  path : Text
  /-- What is wrong. -/
  cause : LoadCause

/-- The message of an error. -/
def LoadError.message (e : LoadError) : Text :=
  match e.cause with
  | .unreadable failure => utf8 "reading config " ++ e.path ++ utf8 ": " ++ failure.text
  | .malformed fault => utf8 "parsing config " ++ e.path ++ utf8 ": yaml: " ++ fault.message
  | .refused refusal => utf8 "parsing config " ++ e.path ++ utf8 ": yaml: " ++ refusal.text
  | .unfit problems =>
    utf8 "parsing config " ++ e.path ++ utf8 ": yaml: unmarshal errors:" ++
      problems.flatMap fun p => utf8 "\n  " ++ p.text
  | .unusable error => utf8 "invalid config " ++ e.path ++ utf8 ": " ++ error.message

/-- The file in the home directory that is read if no other is named. -/
def preferencesFile : Text := utf8 ".loxrc.yml"

namespace Preferences

/-- The preferences that a file's content sets over the defaults, and what is
wrong with them. -/
def ofContent (content : Text) : Preferences × Option LoadCause :=
  match Document.read content with
  | .error fault => (default, some (.malformed fault))
  | .ok document =>
    let s := default.set (content.length + 1) document
    match s.refusal, s.problems with
    | some refusal, _ => (s.preferences, some (.refused refusal))
    | none, [] => (s.preferences, s.preferences.error?.map .unusable)
    | none, problems => (s.preferences, some (.unfit problems))

/-- The preferences by what reading their file gave, and what is wrong with them.
A file that does not have to exist may be missing. -/
def ofRead (required : Bool) (path : Text) :
    Except FileFailure Text → Preferences × Option LoadError
  | .ok content =>
    let (p, cause) := ofContent content
    (p, cause.map fun c => ⟨path, c⟩)
  | .error failure =>
    if !required && failure.cause = .missing then (default, none)
    else (default, some ⟨path, .unreadable failure⟩)

/-- The path of the file to read: the one named, or the one in the home directory;
none if there is no home directory. -/
def source? (home : Option Text) (path : Text) : Option Text :=
  if path.isEmpty then home.map fun directory => Path.join directory preferencesFile
  else some path

/-- The preferences in a file, and what is wrong with them. -/
def load (files : Directory) (home : Option Text) (path : Text) :
    Preferences × Option LoadError :=
  match source? home path with
  | none => (default, none)
  | some source => ofRead (!path.isEmpty) source (files.read source)

end Preferences

end Lox
