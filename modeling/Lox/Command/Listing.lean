import Lox.Command.Console
import Lox.Session
import Lox.Tree.Sexp

/-!
# Listings of a source

Two commands show a source without running it: one lists its tokens, one its
tree. Each takes the path of one file.
-/

namespace Lox

/-- What a listing shows. -/
inductive Listing where
  /-- One token a line. -/
  | tokens
  /-- One statement a line. -/
  | tree
  deriving DecidableEq, Repr

namespace Listing

/-- The name of the command. -/
def name : Listing → Text
  | tokens => utf8 "lex"
  | tree => utf8 "tree"

/-- How the command is used. -/
def usage (l : Listing) : Text :=
  utf8 "Usage: " ++ l.name ++ utf8 " /path/to/source.lox\n"

/-- The ending of a source with errors. -/
def rejected (report : Report) : Ending := ⟨.dataError, .ofErr (Text.line report.text)⟩

/-- The listing of a source's tokens. How long scanning took, which the command
says on the second stream at the end, is left out: it is no function of the
source. -/
def ofTokens (tokens : List Token) : Ending :=
  ⟨.ok, .ofOut (Text.unlines (tokens.map Token.text))⟩

/-- The listing of a source's tree. -/
def ofTree (tokens : List Token) : Ending :=
  match parse tokens with
  | .error errors => rejected (.several (errors.map GrammarError.report))
  | .ok program => ⟨.ok, .ofOut ((treeText? program).getD [])⟩

/-- The listing of a source. -/
def ofSource (l : Listing) (source : Text) : Ending :=
  match scan source with
  | .error errors => rejected (.several (errors.map LexicalError.report))
  | .ok scanned => if l = tokens then ofTokens scanned else ofTree scanned

/-- The listing of what reading a file gave. -/
def ofRead (l : Listing) : Except FileFailure Text → Ending
  | .ok source => l.ofSource source
  | .error failure => ⟨.ioError, .ofErr (Text.line (utf8 "reading source: " ++ failure.text))⟩

/-- The ending of a call with wrong arguments. -/
def misused (l : Listing) : Ending := ⟨.usage, .ofOut l.usage⟩

/-- The command on its arguments. -/
def run (l : Listing) (files : Directory) : List Text → Ending
  | [path] => l.ofRead (files.read path)
  | _ => l.misused

end Listing

end Lox
