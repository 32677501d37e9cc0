import Lox.Text.Rune

/-!
# Errors as they are shown

Every phase has causes of its own for its errors. A report is what the user gets
to see of one: the phase, the message, the line, and for a bad character the
character itself. Several errors of one phase make a list, written one a line.
-/

namespace Lox

/-- An error as it is shown. -/
inductive Report where
  /-- A bad piece of source; the character is minus one when there is none. -/
  | lexical (char : Int) (message : Text) (line : Int)
  /-- A token that cannot continue a program. -/
  | grammatical (message : Text) (line : Int)
  /-- A statement that could not be carried out. -/
  | runtime (message : Text) (line : Int)
  /-- All errors of one phase, in the order they were found. -/
  | several (members : List Report)
  /-- Any other failure, by its text. -/
  | other (message : Text)

namespace Report

/-- The place of an error in front of its text. -/
def located (line : Int) (rest : Text) : Text :=
  utf8 "[line " ++ Text.ofInt line ++ utf8 "] " ++ rest

/-- A character between back quotes; what is no Unicode scalar value is shown as
the replacement character. -/
def shownChar (char : Int) : Text :=
  utf8 "`" ++ (if char < 0 then Rune.encode Rune.replacement else Rune.encode char.toNat) ++
    utf8 "` "

mutual

/-- The text of an error. -/
def text : Report → Text
  | lexical char message line =>
    located line (utf8 "LexError " ++ (if char = -1 then [] else shownChar char) ++ message)
  | grammatical message line => located line (utf8 "ParseError " ++ message)
  | runtime message line => located line (utf8 "RuntimeError " ++ message)
  | several members => Text.join [Text.lineFeed] (texts members)
  | other message => message

/-- The texts of several errors. -/
def texts : List Report → List Text
  | [] => []
  | report :: rest => report.text :: texts rest

end

/-- The lines that tell the user about an error: one for each member of a list,
else one. -/
def lines : Report → List Text
  | several members => texts members
  | report => [report.text]

/-- How many errors a report counts for: the members of a list, else one. -/
def count : Report → Nat
  | several members => members.length
  | _ => 1

/-- The lines about an error that may not have happened. -/
def allLines : Option Report → List Text
  | some report => report.lines
  | none => []

/-- How many errors count when there may be none: a report that is missing still
counts as one. -/
def countOf : Option Report → Nat
  | some report => report.count
  | none => 1

instance : Inhabited Report := ⟨.other []⟩

/-- The texts of several errors are as many as the errors. -/
theorem length_texts (members : List Report) : (texts members).length = members.length := by
  induction members with
  | nil => rfl
  | cons report rest ih => simp only [texts, List.length_cons, ih]

/-- A report is told in as many lines as it counts for. -/
theorem length_lines (report : Report) : report.lines.length = report.count := by
  cases report with
  | several members => exact length_texts members
  | _ => rfl

end Report

end Lox
