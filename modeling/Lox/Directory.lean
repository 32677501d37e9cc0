import Lox.Path

/-!
# Files

A tree of files and directories with a working directory in it. Paths are
followed part by part: each part before the last has to be a directory that
exists. A file can be read whole, and written whole where its directory exists.
One device is always empty and swallows what is written to it.
-/

namespace Lox

/-- Why a path leads to no file. -/
inductive FileCause where
  /-- A part does not exist. -/
  | missing
  /-- A part that has to be a directory is a file. -/
  | notDirectory
  /-- The path leads to a directory. -/
  | isDirectory
  /-- The file may not be used. -/
  | denied
  /-- The path, or a part of it, is too long. -/
  | tooLong
  /-- The path holds a zero byte. -/
  | invalid
  deriving DecidableEq, Repr

/-- The message of a cause. -/
def FileCause.message : FileCause → Text
  | missing => utf8 "no such file or directory"
  | notDirectory => utf8 "not a directory"
  | isDirectory => utf8 "is a directory"
  | denied => utf8 "permission denied"
  | tooLong => utf8 "file name too long"
  | invalid => utf8 "invalid argument"

/-- How many bytes a part of a path has at most. -/
def partLimit : Nat := 255

/-- How many bytes a path has at most. -/
def pathLimit : Nat := 4095

/-- What is wrong with a path whatever the files are. -/
def pathFault? (path : Text) : Option FileCause :=
  if path.contains 0 then some .invalid
  else if path.isEmpty then some .missing
  else if pathLimit < path.length then some .tooLong
  else none

/-- A file operation that failed. -/
structure FileFailure where
  /-- Whether the file was open already. -/
  opened : Bool
  /-- The path as it was given. -/
  path : Text
  /-- What is wrong. -/
  cause : FileCause
  deriving DecidableEq

/-- The text of a failed operation. -/
def FileFailure.text (f : FileFailure) : Text :=
  (if f.opened then utf8 "read " else utf8 "open ") ++ f.path ++ utf8 ": " ++ f.cause.message

/-- What can stand at a place. -/
inductive Entry where
  /-- A file with its content. -/
  | file (content : Text)
  /-- A directory. -/
  | directory
  /-- A device that is always empty and swallows what is written to it. -/
  | sink
  deriving DecidableEq

/-- A tree of files. -/
structure Directory where
  /-- The working directory, by its parts from the root. -/
  working : List Text
  /-- What stands at places, by their parts. -/
  entries : List (List Text × Entry)

namespace Directory

/-- Whether a place is a directory: the working directory lies in it, an entry
says so, or something lies below it. -/
def isDirectory (d : Directory) (place : List Text) : Bool :=
  place.isPrefixOf d.working || d.entries.any fun e =>
    (e.1 == place && e.2 = .directory) || (place.isPrefixOf e.1 && e.1 != place)

/-- What can be read at a place. -/
def content? (d : Directory) (place : List Text) : Option Text :=
  d.entries.findSome? fun e =>
    if e.1 != place then none
    else match e.2 with
      | .file content => some content
      | .directory => none
      | .sink => some []

/-- The place that the parts of a path lead to, from a given place. -/
def follow (d : Directory) : List Text → List Text → Except FileCause (List Text)
  | place, [] => .ok place
  | place, part :: rest =>
    if !d.isDirectory place then .error .notDirectory
    else if part = [] ∨ part = Path.here then d.follow place rest
    else if part = Path.above then d.follow place.dropLast rest
    else if partLimit < part.length then .error .tooLong
    else
      let next := place ++ [part]
      if d.isDirectory next || (d.content? next).isSome then d.follow next rest
      else .error .missing

/-- Where a path starts. -/
def origin (d : Directory) (path : Text) : List Text :=
  if Path.isAbsolute path then [] else d.working

/-- The content of the file that a path leads to. -/
def read (d : Directory) (path : Text) : Except FileFailure Text :=
  match pathFault? path with
  | some cause => .error ⟨false, path, cause⟩
  | none =>
    match d.follow (d.origin path) (Path.parts path) with
    | .error cause => .error ⟨false, path, cause⟩
    | .ok place =>
      match d.content? place with
      | some content => .ok content
      | none => .error ⟨true, path, .isDirectory⟩

/-- The tree with a content for the file at a place. -/
def put (d : Directory) (place : List Text) (content : Text) : Directory :=
  if d.entries.contains (place, .sink) then d
  else { d with entries := d.entries.filter (fun e => e.1 != place) ++ [(place, .file content)] }

/-- The tree with a content for the file that a path leads to, which is created
if its directory exists. A path with a slash at its end can only lead to a
directory. -/
def write (d : Directory) (path content : Text) : Except FileFailure Directory :=
  let fail (cause : FileCause) : Except FileFailure Directory := .error ⟨false, path, cause⟩
  let parts := Path.parts (Text.dropEndWhile (· == Path.slash) path)
  let name := parts.getLast?.getD []
  match pathFault? path with
  | some cause => fail cause
  | none =>
    match d.follow (d.origin path) parts.dropLast with
    | .error cause => fail cause
    | .ok folder =>
      let place := folder ++ [name]
      if !d.isDirectory folder then fail .notDirectory
      else if path.getLast? = some Path.slash then fail .isDirectory
      else if name = Path.here ∨ name = Path.above then fail .isDirectory
      else if partLimit < name.length then fail .tooLong
      else if d.isDirectory place then fail .isDirectory
      else .ok (d.put place content)

/-- The files below the working directory that are new or have another content
than before, by their parts from there. -/
def changes (before after : Directory) : List (List Text × Text) :=
  after.entries.filterMap fun e =>
    match e.2 with
    | .directory | .sink => none
    | .file content =>
      if before.content? e.1 = some content || !after.working.isPrefixOf e.1 then none
      else some (e.1.drop after.working.length, content)

/-- The directories that stand at the root of a system. -/
def rootNames : List String :=
  ["bin", "boot", "dev", "etc", "home", "lib", "media", "mnt", "opt", "proc", "root", "run",
    "sbin", "srv", "sys", "tmp", "usr", "var"]

/-- What a system has besides its user's files: the directories at its root, and
the device that swallows everything. -/
def surroundings : List (List Text × Entry) :=
  (["dev", "null"].map utf8, .sink) :: rootNames.map fun name => ([utf8 name], .directory)

/-- A tree that holds named files below its working directory. A name that ends
in a slash is a directory. -/
def ofFiles (working : List Text) (files : List (Text × Text)) : Directory :=
  let own := files.map fun f =>
    let place := ((Path.parts f.1).foldl (Path.climb true) working.reverse).reverse
    (place, if f.1.getLast? = some Path.slash then Entry.directory else .file f.2)
  ⟨working, own ++ surroundings⟩

end Directory

end Lox
