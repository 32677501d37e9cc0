import Lox.Text

/-!
# Paths

A path is a text whose parts are set apart by slashes. Paths are compared and
combined here as texts only: a clean path has no empty part, no `.` part, and a
`..` part only in front of a relative path.
-/

namespace Lox.Path

/-- The byte between the parts of a path. -/
def slash : UInt8 := 0x2F

/-- The part that names the directory itself. -/
def here : Text := utf8 "."

/-- The part that names the directory above. -/
def above : Text := utf8 ".."

/-- Whether a path starts at the root. -/
def isAbsolute : Text → Bool
  | b :: _ => b == slash
  | [] => false

/-- The parts of a path, empty ones included. -/
def parts (path : Text) : List Text := Text.splitOn slash path

/-- One more part on a list of clean parts, the last part first. -/
def climb (rooted : Bool) (done : List Text) (part : Text) : List Text :=
  if part = [] ∨ part = here then done
  else if part = above then
    match done with
    | [] => if rooted then [] else [above]
    | last :: rest => if last = above then above :: done else rest
  else part :: done

/-- The shortest path with the same meaning, by its text alone. -/
def clean (path : Text) : Text :=
  let rooted := isAbsolute path
  let done := ((parts path).foldl (climb rooted) []).reverse
  let body := Text.join [slash] done
  if rooted then slash :: body
  else if done.isEmpty then here
  else body

/-- A path below a directory; an empty part counts for nothing. -/
def join (directory path : Text) : Text :=
  match directory, path with
  | [], [] => []
  | [], p => clean p
  | d, [] => clean d
  | d, p => clean (d ++ [slash] ++ p)

/-- The clean path from the root, for a path seen from a working directory. -/
def absolute (working path : Text) : Text :=
  if isAbsolute path then clean path else join working path

end Lox.Path
