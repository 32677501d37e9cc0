import Lox.Value

/-!
# Tokens

A token is a classified piece of source text with its line and, for strings and
numbers, the value it denotes. Kinds have an integer code; codes without a name
are kinds too, so that any stream of coded tokens can be represented.
-/

namespace Lox

/-- The signs of the language. -/
inductive Punctuator where
  | leftParen | rightParen | leftBrace | rightBrace
  | comma | dot | minus | plus | semicolon | slash | star
  | bang | bangEqual | equal | equalEqual
  | greater | greaterEqual | less | lessEqual
  deriving DecidableEq, Repr

namespace Punctuator

/-- How a sign is written. -/
def spelling : Punctuator → Text
  | leftParen => utf8 "("
  | rightParen => utf8 ")"
  | leftBrace => utf8 "\x7b"
  | rightBrace => utf8 "\x7d"
  | comma => utf8 ","
  | dot => utf8 "."
  | minus => utf8 "-"
  | plus => utf8 "+"
  | semicolon => utf8 ";"
  | slash => utf8 "/"
  | star => utf8 "*"
  | bang => utf8 "!"
  | bangEqual => utf8 "!="
  | equal => utf8 "="
  | equalEqual => utf8 "=="
  | greater => utf8 ">"
  | greaterEqual => utf8 ">="
  | less => utf8 "<"
  | lessEqual => utf8 "<="

/-- Every sign, in the order of the codes. -/
def all : List Punctuator :=
  [leftParen, rightParen, leftBrace, rightBrace, comma, dot, minus, plus, semicolon, slash,
    star, bang, bangEqual, equal, equalEqual, greater, greaterEqual, less, lessEqual]

/-- The list of signs is complete. -/
theorem mem_all (p : Punctuator) : p ∈ all := by
  cases p <;> decide

end Punctuator

/-- The reserved words of the language. -/
inductive Keyword where
  | and | class_ | else_ | false_ | fun_ | for_ | if_ | nil | or | print
  | return_ | super | this_ | true_ | var | while_
  deriving DecidableEq, Repr

namespace Keyword

/-- How a reserved word is written. -/
def spelling : Keyword → Text
  | and => utf8 "and"
  | class_ => utf8 "class"
  | else_ => utf8 "else"
  | false_ => utf8 "false"
  | fun_ => utf8 "fun"
  | for_ => utf8 "for"
  | if_ => utf8 "if"
  | nil => utf8 "nil"
  | or => utf8 "or"
  | print => utf8 "print"
  | return_ => utf8 "return"
  | super => utf8 "super"
  | this_ => utf8 "this"
  | true_ => utf8 "true"
  | var => utf8 "var"
  | while_ => utf8 "while"

/-- Every reserved word, in the order of the codes. -/
def all : List Keyword :=
  [and, class_, else_, false_, fun_, for_, if_, nil, or, print, return_, super, this_,
    true_, var, while_]

/-- The list of reserved words is complete. -/
theorem mem_all (k : Keyword) : k ∈ all := by
  cases k <;> decide

/-- The reserved word that a text spells. -/
def ofSpelling? (t : Text) : Option Keyword := all.find? fun k => k.spelling == t

/-- A text spells a reserved word exactly when it is that word's spelling. -/
theorem ofSpelling?_eq_some_iff {t : Text} {k : Keyword} :
    ofSpelling? t = some k ↔ t = k.spelling := by
  constructor
  · intro h
    have hs := List.find?_some h
    exact (beq_iff_eq.mp hs).symm
  · rintro rfl
    cases k <;> decide

end Keyword

/-- The kinds of token. -/
inductive Kind where
  /-- The end of the source. -/
  | eof
  /-- A sign. -/
  | sign (p : Punctuator)
  /-- A name. -/
  | identifier
  /-- A string literal. -/
  | string
  /-- A numeral. -/
  | number
  /-- A reserved word. -/
  | word (k : Keyword)
  /-- A code that no kind above has. -/
  | unnamed (code : Int)
  deriving DecidableEq, Repr

namespace Kind

/-- The kinds that have a name, in the order of their codes from minus one. -/
def named : List Kind :=
  eof :: Punctuator.all.map sign ++ [identifier, string, number] ++ Keyword.all.map word

/-- The kind of a code. -/
def ofCode (code : Int) : Kind :=
  if code < -1 then unnamed code else (named[(code + 1).toNat]?).getD (unnamed code)

/-- The integer code of a kind. -/
def code : Kind → Int
  | unnamed c => c
  | kind => (named.idxOf kind : Int) - 1

/-- The kinds that have a name carry the codes from minus one upwards. -/
theorem code_named : ∀ i : Fin 39, (named.get i).code = (i : Int) - 1 := by
  decide

/-- Every code is the code of its kind. -/
theorem code_ofCode (c : Int) : (ofCode c).code = c := by
  unfold ofCode
  split
  · rfl
  · next hc =>
    by_cases hn : (c + 1).toNat < named.length
    · rw [List.getElem?_eq_getElem hn, Option.getD_some]
      have hi : named[(c + 1).toNat].code = ((c + 1).toNat : Int) - 1 :=
        code_named ⟨(c + 1).toNat, hn⟩
      rw [hi]
      omega
    · rw [List.getElem?_eq_none (Nat.le_of_not_lt hn), Option.getD_none]
      rfl

/-- The name of a sign. -/
def signName : Punctuator → Text
  | .leftParen => utf8 "LEFT_PAREN"
  | .rightParen => utf8 "RIGHT_PAREN"
  | .leftBrace => utf8 "LEFT_BRACE"
  | .rightBrace => utf8 "RIGHT_BRACE"
  | .comma => utf8 "COMMA"
  | .dot => utf8 "DOT"
  | .minus => utf8 "MINUS"
  | .plus => utf8 "PLUS"
  | .semicolon => utf8 "SEMICOLON"
  | .slash => utf8 "SLASH"
  | .star => utf8 "STAR"
  | .bang => utf8 "BANG"
  | .bangEqual => utf8 "BANG_EQUAL"
  | .equal => utf8 "EQUAL"
  | .equalEqual => utf8 "EQUAL_EQUAL"
  | .greater => utf8 "GREATER"
  | .greaterEqual => utf8 "GREATER_EQUAL"
  | .less => utf8 "LESS"
  | .lessEqual => utf8 "LESS_EQUAL"

/-- The name of a reserved word: its spelling in capitals. -/
def wordName (k : Keyword) : Text := k.spelling.map fun b => b - 0x20

/-- The name of a kind; a code without one is written as a number. -/
def name : Kind → Text
  | eof => utf8 "EOF"
  | sign p => signName p
  | identifier => utf8 "IDENTIFIER"
  | string => utf8 "STRING"
  | number => utf8 "NUMBER"
  | word k => wordName k
  | unnamed code => utf8 "TokenType(" ++ Text.ofInt code ++ utf8 ")"

/-- The kind of a name. -/
def ofName? (t : Text) : Option Kind := named.find? fun kind => kind.name == t

end Kind

/-- A classified piece of source text. -/
structure Token where
  /-- What the piece is. -/
  kind : Kind
  /-- The bytes of the piece. -/
  lexeme : Text
  /-- The value that a string or a numeral denotes. -/
  literal : Option Value
  /-- The line on which the piece ends. -/
  line : Int
  deriving DecidableEq

namespace Token

/-- The token that ends a stream. -/
def eof (line : Int) : Token := ⟨.eof, [], none, line⟩

/-- A token in one line: line, kind, lexeme and the literal if there is one. -/
def text (t : Token) : Text :=
  let front := Text.ofInt t.line ++ utf8 " " ++ t.kind.name ++ utf8 " " ++ t.lexeme
  match t.literal with
  | some v => front ++ utf8 " " ++ v.text
  | none => front

end Token

end Lox
