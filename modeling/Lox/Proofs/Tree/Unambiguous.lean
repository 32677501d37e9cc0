import Mathlib.Data.Set.Function
import Lox.Proofs.Lines.Reading
import Lox.Proofs.Number.Positional
import Lox.Proofs.Tree.Produced
import Lox.Proofs.Tree.Sexp

/-!
# Programs told apart by their trees

The text of a program's tree leaves out the lines of its tokens and the words that start its
statements, and nothing else: the program without them can be read back from the text. This holds
for the programs of sources, whatever characters count as printable inside quotes.
-/

namespace Lox

/-- Stands where the keyword of a statement was. -/
def noKeyword : Token := .eof 0

mutual

/-- The statement without the keywords of its prints, conditionals and loops. -/
def Stmt.withoutKeywords : Stmt → Stmt
  | .absent => .absent
  | .block body => .block (Stmt.allWithoutKeywords body)
  | .classDecl n superclass methods => .classDecl n superclass (Stmt.allWithoutKeywords methods)
  | .expression value => .expression value
  | .functionDecl n params body => .functionDecl n params (Stmt.allWithoutKeywords body)
  | .conditional _ condition thenBranch elseBranch =>
    .conditional noKeyword condition thenBranch.withoutKeywords elseBranch.withoutKeywords
  | .print _ value => .print noKeyword value
  | .returning keyword value => .returning keyword value
  | .var n initializer => .var n initializer
  | .loop _ condition body => .loop noKeyword condition body.withoutKeywords
termination_by structural s => s

/-- The statements without those keywords. -/
def Stmt.allWithoutKeywords : List Stmt → List Stmt
  | [] => []
  | s :: rest => s.withoutKeywords :: Stmt.allWithoutKeywords rest
termination_by structural body => body

end

/-- The token without its line. -/
def Token.unplaced (t : Token) : Token := t.mapLine fun _ => 0

/-- The expression without the lines of its tokens. -/
def Expr.unplaced (e : Expr) : Expr := e.mapLine fun _ => 0

/-- The statement without the lines of its tokens and the keywords of its prints, conditionals and
loops. -/
def Stmt.erased (s : Stmt) : Stmt := s.withoutKeywords.mapLine fun _ => 0

/-! ### Reading trees back -/

instance : Nonempty Token := ⟨noKeyword⟩

/-- The token of a source that is spelled in a given way, without its line. -/
noncomputable def Token.ofLexeme (lexeme : Text) : Token :=
  Function.invFunOn Token.lexeme {t | t.Written ∧ t.line = 0} lexeme

/-- A token of a source is known by its bytes, its line apart. -/
theorem Token.Written.ofLexeme_eq {t : Token} (h : t.Written) :
    Token.ofLexeme t.lexeme = t.unplaced := by
  have hinj : Set.InjOn Token.lexeme {t | t.Written ∧ t.line = 0} := by
    rintro ⟨kind, lexeme, literal, line⟩ ⟨ht, rfl⟩ ⟨kind', lexeme', literal', line'⟩ ⟨ht', rfl⟩ heq
    cases (heq : lexeme = lexeme')
    obtain ⟨rfl, rfl⟩ := Pattern.unique ht ht'
    rfl
  have hmem : t.unplaced ∈ {t | t.Written ∧ t.line = 0} := ⟨h, rfl⟩
  exact hinj.leftInvOn_invFunOn hmem

/-- The literal or the variable that a symbol stands for: a letter starts a word or a name, a quote
a string, and anything else a number. -/
noncomputable def Expr.ofSymbol (printable : Nat → Bool) (t : Text) : Expr :=
  if t.head?.any Text.isLetter then
    match Segment.nameKind t with
    | .word .true_ => .literal (some (.bool true))
    | .word .false_ => .literal (some (.bool false))
    | .word .nil => .literal (some .nil)
    | _ => .name (.ofLexeme t)
  else if t.head? = some 0x22 then
    .literal (some (.string (Function.invFun (Quoted.quoteWith printable) t)))
  else
    .literal (some (.number
      (Function.invFunOn Number.text {x | x.toBits.toNat ≤ Number.infinityBits} t)))

/-- The expression that an S-expression shows. -/
noncomputable def Expr.ofSexp (printable : Nat → Bool) : Sexp → Expr
  | .atom t => .ofSymbol printable t
  | .list [.atom head, x] =>
    if head = utf8 "group" then .grouping (Expr.ofSexp printable x)
    else .unary (.ofLexeme head) (Expr.ofSexp printable x)
  | .list [.atom head, x, y] =>
    if head = utf8 "=" then .assign (.ofLexeme x.text) (Expr.ofSexp printable y)
    else .infixNode (Expr.ofSexp printable x) (.ofLexeme head) (Expr.ofSexp printable y)
  | _ => .absent
termination_by structural x => x

mutual

/-- The statement that an S-expression shows, without its keyword. -/
noncomputable def Stmt.ofSexp (printable : Nat → Bool) : Sexp → Stmt
  | .list (.atom head :: items) =>
    if head = utf8 "scope" then .block (Stmt.ofSexps printable items)
    else if head = utf8 "print" then
      match items with
      | [x] => .print noKeyword (.ofSexp printable x)
      | _ => .absent
    else if head = utf8 "var" then
      match items with
      | [n] => .var (.ofLexeme n.text) .absent
      | [n, x] => .var (.ofLexeme n.text) (.ofSexp printable x)
      | _ => .absent
    else if head = utf8 "if" then
      match items with
      | [c, s] => .conditional noKeyword (.ofSexp printable c) (Stmt.ofSexp printable s) .absent
      | [c, s, t] =>
        .conditional noKeyword (.ofSexp printable c) (Stmt.ofSexp printable s)
          (Stmt.ofSexp printable t)
      | _ => .absent
    else if head = utf8 "while" then
      match items with
      | [c, s] => .loop noKeyword (.ofSexp printable c) (Stmt.ofSexp printable s)
      | _ => .absent
    -- A statement that is an expression has no symbol of its own.
    else .expression (.ofSexp printable (.list (.atom head :: items)))
  | x => .expression (.ofSexp printable x)
termination_by structural x => x

/-- The statements that S-expressions show, without their keywords. -/
noncomputable def Stmt.ofSexps (printable : Nat → Bool) : List Sexp → List Stmt
  | [] => []
  | x :: items => Stmt.ofSexp printable x :: Stmt.ofSexps printable items
termination_by structural items => items

end

/-! ### Symbols -/

/-- Letters and digits are part of plain symbols. -/
theorem Sexp.isPlain_of_isNamePart {b : UInt8}
    (h : Text.isLetter b = true ∨ Text.isDigit b = true) : Sexp.isPlain b = true := by
  simp only [Text.isLetter, Text.isDigit, Sexp.isPlain, Text.lineFeed, Bool.or_eq_true,
    Bool.and_eq_true, decide_eq_true_eq, beq_iff_eq, bne_iff_ne, ne_eq, UInt8.le_iff_toNat_le,
    ← UInt8.toNat_inj, UInt8.reduceToNat] at h ⊢
  omega

/-- A name is a plain symbol. -/
theorem Token.Written.plain_name {n : Token} (hn : n.Written) (hkind : n.kind = .identifier) :
    Sexp.Plain n.lexeme := by
  obtain ⟨kind, lexeme, literal, line⟩ := n
  cases hkind
  cases hn with
  | identifier hl h =>
    refine ⟨List.cons_ne_nil _ _, List.forall_mem_cons.mpr ⟨?_, fun b hb => ?_⟩⟩
    · exact Sexp.isPlain_of_isNamePart (.inl hl)
    · exact Sexp.isPlain_of_isNamePart (h b hb)

/-- The text of a number without a sign starts with a digit or with a plus. -/
theorem Number.head_of_unsigned {x : Float} (hx : x.toBits.toNat ≤ infinityBits) :
    ∃ b rest, text x = b :: rest ∧ (Text.isDigit b = true ∨ b = 0x2B) := by
  obtain ⟨htext, -⟩ | ⟨q, hdenotes, -⟩ := text_of_unsigned hx
  · exact ⟨0x2B, utf8 "Inf", htext, .inr rfl⟩
  · obtain ⟨b, rest, hrest, hb⟩ := hdenotes.exists_digit
    exact ⟨b, rest, hrest, .inl hb⟩

/-- It is a plain symbol. -/
theorem Number.plain_text {x : Float} (hx : x.toBits.toNat ≤ infinityBits) :
    Sexp.Plain (text x) := by
  obtain ⟨htext, -⟩ | ⟨q, hdenotes, -⟩ := text_of_unsigned hx
  · rw [htext]
    decide
  · obtain ⟨b, rest, hrest, -⟩ := hdenotes.exists_digit
    refine ⟨hrest ▸ List.cons_ne_nil b rest, fun b hb => ?_⟩
    obtain hdigit | rfl := hdenotes.isDigit_or_point hb
    · exact Sexp.isPlain_of_isNamePart (.inr hdigit)
    · decide

section Symbols

variable (printable : Nat → Bool)

/-- A quoted text is read back as the string. -/
theorem Expr.ofSymbol_quoteWith (s : Text) :
    Expr.ofSymbol printable (Quoted.quoteWith printable s) = .literal (some (.string s)) := by
  have hinj : Function.Injective (Quoted.quoteWith printable) := by
    intro t t' h
    have hrest : Quoted.quoteWith printable t ++ [] = Quoted.quoteWith printable t' ++ [] := by
      rw [h]
    exact (Quoted.quoteWith_append_inj printable hrest).1
  have hread := Function.leftInverse_invFun hinj s
  have hhead : (Quoted.quoteWith printable s).head? = some 0x22 := rfl
  rw [ofSymbol, hhead, if_neg (by decide), if_pos rfl, hread]

/-- The text of a number without a sign is read back as the number. -/
theorem Expr.ofSymbol_number {x : Float} (hx : x.toBits.toNat ≤ Number.infinityBits) :
    Expr.ofSymbol printable (Number.text x) = .literal (some (.number x)) := by
  have hinj : Set.InjOn Number.text {x | x.toBits.toNat ≤ Number.infinityBits} :=
    fun x hx y hy h => Number.text_inj hx hy h
  have hread := hinj.leftInvOn_invFunOn hx
  obtain ⟨b, rest, hrest, hb⟩ := Number.head_of_unsigned hx
  have hhead : (Number.text x).head? = some b := by rw [hrest, List.head?_cons]
  have hclass : Text.isLetter b = false ∧ b ≠ 0x22 := by
    obtain hdigit | rfl := hb
    · constructor
      · rw [Bool.eq_false_iff]
        intro hletter
        rw [Text.isDigit_of_isLetter hletter] at hdigit
        cases hdigit
      · rintro rfl
        cases hdigit
    · decide
  have hquote : some b ≠ some 0x22 := fun h => hclass.2 (Option.some.inj h)
  rw [ofSymbol, hhead, Option.any_some, hclass.1, if_neg Bool.false_ne_true, if_neg hquote, hread]

/-- A name is read back as the variable. -/
theorem Expr.ofSymbol_name {n : Token} (hn : n.Written) (hkind : n.kind = .identifier) :
    Expr.ofSymbol printable n.lexeme = .name n.unplaced := by
  have hread := hn.ofLexeme_eq
  obtain ⟨kind, lexeme, literal, line⟩ := n
  cases hkind
  cases hn with
  | identifier hl h hw =>
    have hword := Segment.nameKind_of_ne hw
    rw [ofSymbol, List.head?_cons, Option.any_some, hl, if_pos rfl, hword]
    exact congrArg Expr.name hread

end Symbols

/-- How a sign or a reserved word is written. -/
def Kind.spelling : Kind → Text
  | .sign p => p.spelling
  | .word k => k.spelling
  | _ => []

/-- A sign or a reserved word of a source is written as it is spelled. -/
theorem Token.Written.lexeme_eq_spelling {t : Token} (h : t.Written)
    (hkind : t.kind.spelling ≠ []) : t.lexeme = t.kind.spelling := by
  cases hk : t.kind with
  | sign p => exact h.lexeme_of_sign hk
  | word k => exact h.lexeme_of_word hk
  | eof | identifier | string | number | unnamed =>
    rw [hk] at hkind
    exact absurd rfl hkind

/-- The operators of expressions. -/
def operatorKinds : List Kind :=
  [.sign .bang, .sign .minus, .word .or, .word .and] ++ Semantics.generalKinds ++
    Semantics.numericKinds

/-- The symbols at the start of statements that are no expressions. -/
def statementSymbols : List Text :=
  [utf8 "scope", utf8 "print", utf8 "var", utf8 "if", utf8 "while"]

/-- The first symbol of a list. -/
def Sexp.head? : Sexp → Option Text
  | .list (.atom t :: _) => some t
  | _ => none

/-- An operator is a plain symbol and none of those that start other lists. -/
theorem Token.Written.operator_symbol {op : Token} (h : op.Written)
    (hkind : op.kind ∈ operatorKinds) :
    Sexp.Plain op.lexeme ∧ op.lexeme ≠ utf8 "group" ∧ op.lexeme ≠ utf8 "=" ∧
      op.lexeme ∉ statementSymbols := by
  have htable : ∀ k ∈ operatorKinds, Sexp.Plain k.spelling ∧ k.spelling ≠ utf8 "group" ∧ k.spelling ≠ utf8 "=" ∧
      k.spelling ∉ statementSymbols := by
    decide
  have hspelling := htable op.kind hkind
  rwa [← h.lexeme_eq_spelling hspelling.1.1] at hspelling

/-! ### Trees -/

/-- An S-expression that shows an expression: it is what the expression is written as, its text
can be told from others, it is taken for no other statement, and the expression can be read back
from it. -/
structure Expr.Shows (printable : Nat → Bool) (e : Expr) (x : Sexp) : Prop where
  written : e.sexpWith? (Quoted.quoteWith printable) = some x
  readable : x.Readable printable
  head : ∀ t ∈ x.head?, t ∉ statementSymbols
  read : Expr.ofSexp printable x = e.unplaced

/-- An S-expression that shows a statement. -/
structure Stmt.Shows (printable : Nat → Bool) (s : Stmt) (x : Sexp) : Prop where
  written : s.sexpWith? (Quoted.quoteWith printable) = some x
  readable : x.Readable printable
  read : Stmt.ofSexp printable x = s.erased

/-- A numeral denotes a number without a sign, and a string a text. -/
theorem Pattern.literal_cases {kind : Kind} {lexeme : Text} {literal : Option Value}
    (h : Pattern kind lexeme literal) (hkind : kind = .number ∨ kind = .string) :
    (∃ s, literal = some (.string s)) ∨
      ∃ x : Float, literal = some (.number x) ∧ x.toBits.toNat ≤ Number.infinityBits := by
  cases h with
  | string => exact .inl ⟨_, rfl⟩
  | whole | decimal => exact .inr ⟨_, rfl, Number.toBits_ofNumeral_le _ _⟩
  | sign | word | identifier => rcases hkind with hkind | hkind <;> cases hkind

section Trees

variable (printable : Nat → Bool)

/-- A plain symbol shows what it is read as. -/
theorem Expr.Shows.symbol {e : Expr} {t : Text}
    (hwritten : e.sexpWith? (Quoted.quoteWith printable) = some (.atom t))
    (hplain : Sexp.Plain t)
    (hread : Expr.ofSymbol printable t = e.unplaced) : e.Shows printable (.atom t) where
  written := hwritten
  readable := .plain hplain
  head := nofun
  read := hread

/-- A list of items that follow a plain symbol can be read. -/
theorem Sexp.Readable.headed {t : Text} (hplain : Sexp.Plain t)
    {items : List Sexp} (h : ∀ x ∈ items, x.Readable printable) :
    (Sexp.list (.atom t :: items)).Readable printable :=
  .list (List.forall_mem_cons.mpr ⟨.plain hplain, h⟩)

/-- A list that starts with a symbol of expressions shows what it is read as. -/
theorem Expr.Shows.headed {e : Expr} (t : Text) (items : List Sexp)
    (hwritten : e.sexpWith? (Quoted.quoteWith printable) = some (.list (.atom t :: items)))
    (hplain : Sexp.Plain t) (hhead : t ∉ statementSymbols)
    (hitems : ∀ x ∈ items, x.Readable printable)
    (hread : Expr.ofSexp printable (.list (.atom t :: items)) = e.unplaced) :
    e.Shows printable (.list (.atom t :: items)) where
  written := hwritten
  readable := .headed printable hplain hitems
  head _ hs := Option.some.inj hs ▸ hhead
  read := hread

/-- The node of an operator that is applied to two values. -/
theorem Expr.infixNode_of_mem {op : Token}
    (h : op.kind ∈ Semantics.generalKinds ++ Semantics.numericKinds) (left right : Expr) :
    Expr.infixNode left op right = .binary left op right := by
  have hne : op.kind ≠ .word .or ∧ op.kind ≠ .word .and :=
    ⟨fun hor => absurd (hor ▸ h) (by decide), fun hand => absurd (hand ▸ h) (by decide)⟩
  unfold infixNode
  split
  · next hor => exact absurd hor hne.1
  · next hand => exact absurd hand hne.2
  · rfl

/-- The node of an operator that may leave out its right operand. -/
theorem Expr.infixNode_of_word {op : Token} (h : op.kind = .word .or ∨ op.kind = .word .and)
    (left right : Expr) : Expr.infixNode left op right = .logical left op right := by
  obtain h | h := h
  · rw [infixNode, h]
  · rw [infixNode, h]

/-- Two S-expressions after an operator show its node if they show its operands. -/
theorem Expr.Shows.infixNode {op : Token} (hop : op.Written) (hkind : op.kind ∈ operatorKinds)
    {left right : Expr} {x y : Sexp} (hx : left.Shows printable x) (hy : right.Shows printable y) :
    (Expr.infixNode left op right).Shows printable (.list [.atom op.lexeme, x, y]) := by
  obtain ⟨hplain, -, hassign, hhead⟩ := hop.operator_symbol hkind
  refine .headed printable op.lexeme [x, y] ?_ hplain hhead
    (List.forall_mem_cons.mpr ⟨hx.readable, List.forall_mem_singleton.mpr hy.readable⟩) ?_
  · unfold Expr.infixNode
    split
    all_goals
      rw [sexpWith?, hx.written, hy.written]
      rfl
  · rw [Expr.ofSexp, if_neg hassign, hx.read, hy.read, hop.ofLexeme_eq]
    exact infixNode_mapLine _ left op right

/-- Every expression of sources is shown by an S-expression. -/
theorem Expr.Built.exists_shows {e : Expr} (h : e.Built Token.Written) :
    ∃ x, e.Shows printable x := by
  induction h with
  | literal ht hkind =>
    obtain ⟨s, hs⟩ | ⟨x, hx, hunsigned⟩ := Pattern.literal_cases ht hkind
    · rw [hs]
      exact ⟨_, rfl, .quoted s, nofun, Expr.ofSymbol_quoteWith printable s⟩
    · rw [hx]
      exact ⟨_, .symbol printable rfl (Number.plain_text hunsigned)
        (Expr.ofSymbol_number printable hunsigned)⟩
  | truth b =>
    cases b with
    | false => exact ⟨_, .symbol printable rfl (by decide) rfl⟩
    | true => exact ⟨_, .symbol printable rfl (by decide) rfl⟩
  | nil => exact ⟨_, .symbol printable rfl (by decide) rfl⟩
  | name hn hkind =>
    exact ⟨_, .symbol printable rfl (hn.plain_name hkind) (Expr.ofSymbol_name printable hn hkind)⟩
  | grouping _ ih =>
    obtain ⟨x, hx⟩ := ih
    refine ⟨_, .headed printable (utf8 "group") [x] ?_ (by decide) (by decide)
      (List.forall_mem_singleton.mpr hx.readable) ?_⟩
    · rw [sexpWith?, hx.written]
      rfl
    · rw [Expr.ofSexp, if_pos rfl, hx.read]
      rfl
  | @assign n hn hkind e _ ih =>
    obtain ⟨x, hx⟩ := ih
    have hname := hn.plain_name hkind
    have hitems : ∀ y ∈ [.atom n.lexeme, x], y.Readable printable :=
      List.forall_mem_cons.mpr ⟨.plain hname, List.forall_mem_singleton.mpr hx.readable⟩
    refine ⟨_, .headed printable (utf8 "=") _ ?_ (by decide) (by decide) hitems ?_⟩
    · rw [sexpWith?, hx.written]
      rfl
    · rw [Expr.ofSexp, if_pos rfl, hx.read, Sexp.text, hn.ofLexeme_eq]
      rfl
  | @unary op hop hkind e _ ih =>
    obtain ⟨x, hx⟩ := ih
    have hmem : op.kind ∈ operatorKinds := by
      obtain hkind | hkind := hkind
      · rw [hkind]
        decide
      · rw [hkind]
        decide
    obtain ⟨hplain, hgroup, -, hhead⟩ := hop.operator_symbol hmem
    refine ⟨_, .headed printable op.lexeme [x] ?_ hplain hhead
      (List.forall_mem_singleton.mpr hx.readable) ?_⟩
    · rw [sexpWith?, hx.written]
      rfl
    · rw [Expr.ofSexp, if_neg hgroup, hx.read, hop.ofLexeme_eq]
      rfl
  | @binary op hop hkind left right _ _ ihl ihr =>
    obtain ⟨x, hx⟩ := ihl
    obtain ⟨y, hy⟩ := ihr
    have hmem : op.kind ∈ operatorKinds := by
      rw [operatorKinds, List.append_assoc]
      exact List.mem_append_right _ hkind
    rw [← infixNode_of_mem hkind]
    exact ⟨_, .infixNode printable hop hmem hx hy⟩
  | @logical op hop hkind left right _ _ ihl ihr =>
    obtain ⟨x, hx⟩ := ihl
    obtain ⟨y, hy⟩ := ihr
    have hmem : op.kind ∈ operatorKinds := by
      obtain hkind | hkind := hkind
      · rw [hkind]
        decide
      · rw [hkind]
        decide
    rw [← infixNode_of_word hkind]
    exact ⟨_, .infixNode printable hop hmem hx hy⟩

/-- A list that starts with no symbol of other statements is read as an expression. -/
theorem Stmt.ofSexp_of_head {x : Sexp} (h : ∀ t ∈ x.head?, t ∉ statementSymbols) :
    Stmt.ofSexp printable x = .expression (.ofSexp printable x) := by
  match x with
  | .list (.atom head :: items) =>
    have hhead := h head rfl
    simp only [statementSymbols, List.mem_cons, List.not_mem_nil, or_false, not_or] at hhead
    obtain ⟨hscope, hprint, hvar, hif, hwhile⟩ := hhead
    unfold Stmt.ofSexp
    simp only [if_neg hscope, if_neg hprint, if_neg hvar, if_neg hif, if_neg hwhile]
  | .atom t => rfl
  | .list [] => rfl
  | .list (.list _ :: _) => rfl

/-- The statements of a block lose their keywords one by one. -/
theorem Stmt.allWithoutKeywords_eq_map (body : List Stmt) :
    Stmt.allWithoutKeywords body = body.map withoutKeywords := by
  induction body with
  | nil => rfl
  | cons s rest ih => rw [allWithoutKeywords, List.map_cons, ih]

/-- The statements of a block are erased one by one. -/
theorem Stmt.erased_block (body : List Stmt) :
    (Stmt.block body).erased = .block (body.map erased) := by
  rw [erased, withoutKeywords, mapLine, mapLines_eq_map, allWithoutKeywords_eq_map, List.map_map]
  rfl

/-- Several statements are shown together if each is. -/
theorem Stmt.exists_shows_all {body : List Stmt} (h : ∀ s ∈ body, ∃ x, s.Shows printable x) :
    ∃ items, Stmt.sexpsWith? (Quoted.quoteWith printable) body = some items ∧
      (∀ x ∈ items, x.Readable printable) ∧ Stmt.ofSexps printable items = body.map erased := by
  induction body with
  | nil => exact ⟨[], rfl, List.forall_mem_nil _, rfl⟩
  | cons s rest ih =>
    obtain ⟨⟨x, hx⟩, hrest⟩ := List.forall_mem_cons.mp h
    obtain ⟨items, hwritten, hreadable, hread⟩ := ih hrest
    refine ⟨x :: items, ?_, List.forall_mem_cons.mpr ⟨hx.readable, hreadable⟩, ?_⟩
    · rw [sexpsWith?, hx.written, hwritten]
      rfl
    · rw [ofSexps, hx.read, hread, List.map_cons]

/-- Every statement of sources is shown by an S-expression. -/
theorem Stmt.Built.exists_shows {s : Stmt} (h : s.Built Token.Written) :
    ∃ x, s.Shows printable x := by
  induction h with
  | expression he =>
    obtain ⟨x, hx⟩ := he.exists_shows printable
    refine ⟨x, hx.written, hx.readable, ?_⟩
    rw [ofSexp_of_head printable hx.head, hx.read]
    rfl
  | print _ he =>
    obtain ⟨x, hx⟩ := he.exists_shows printable
    refine ⟨.list [.word "print", x], ?_, ?_, ?_⟩
    · rw [sexpWith?, hx.written]
      rfl
    · exact .headed printable (by decide) (List.forall_mem_singleton.mpr hx.readable)
    · rw [Sexp.word, ofSexp, if_neg (by decide), if_pos rfl, hx.read]
      rfl
  | @bare n hn hkind =>
    have hname := hn.plain_name hkind
    refine ⟨.list [.word "var", .atom n.lexeme], rfl, ?_, ?_⟩
    · exact .headed printable (by decide) (List.forall_mem_singleton.mpr (.plain hname))
    · rw [Sexp.word, ofSexp, if_neg (by decide), if_neg (by decide), if_pos rfl, Sexp.text,
        hn.ofLexeme_eq]
      rfl
  | @var n hn hkind e he =>
    obtain ⟨x, hx⟩ := he.exists_shows printable
    have hname := hn.plain_name hkind
    have hpresent := (Expr.isPresent_iff e).mpr he.produced.ne_absent
    refine ⟨.list [.word "var", .atom n.lexeme, x], ?_, ?_, ?_⟩
    · rw [sexpWith?, optional?, if_pos hpresent, hx.written]
      rfl
    · exact .headed printable (by decide) (List.forall_mem_cons.mpr
        ⟨.plain hname, List.forall_mem_singleton.mpr hx.readable⟩)
    · rw [Sexp.word, ofSexp, if_neg (by decide), if_neg (by decide), if_pos rfl, Sexp.text,
        hn.ofLexeme_eq, hx.read]
      rfl
  | @block body _ ih =>
    obtain ⟨items, hwritten, hreadable, hread⟩ := exists_shows_all printable ih
    refine ⟨.list (.word "scope" :: items), ?_, .headed printable (by decide) hreadable, ?_⟩
    · rw [sexpWith?, hwritten]
      rfl
    · unfold ofSexp
      simp only [Sexp.word, if_pos, hread, erased_block]
  | ifThen _ hc _ ih =>
    obtain ⟨c, hc⟩ := hc.exists_shows printable
    obtain ⟨x, hx⟩ := ih
    refine ⟨.list [.word "if", c, x], ?_, ?_, ?_⟩
    · rw [sexpWith?, hc.written, hx.written]
      rfl
    · exact .headed printable (by decide) (List.forall_mem_cons.mpr
        ⟨hc.readable, List.forall_mem_singleton.mpr hx.readable⟩)
    · rw [Sexp.word, ofSexp, if_neg (by decide), if_neg (by decide), if_neg (by decide),
        if_pos rfl, hc.read, hx.read]
      rfl
  | @ifElse k _ c hc s t _ ht ihs iht =>
    obtain ⟨c, hc⟩ := hc.exists_shows printable
    obtain ⟨x, hx⟩ := ihs
    obtain ⟨y, hy⟩ := iht
    have hpresent := (Stmt.isPresent_iff t).mpr ht.produced.ne_absent
    refine ⟨.list [.word "if", c, x, y], ?_, ?_, ?_⟩
    · rw [sexpWith?, hc.written, hx.written, hy.written]
      exact if_pos hpresent
    · exact .headed printable (by decide) (List.forall_mem_cons.mpr
        ⟨hc.readable, List.forall_mem_cons.mpr
          ⟨hx.readable, List.forall_mem_singleton.mpr hy.readable⟩⟩)
    · rw [Sexp.word, ofSexp, if_neg (by decide), if_neg (by decide), if_neg (by decide),
        if_pos rfl, hc.read, hx.read, hy.read]
      rfl
  | loop _ hc _ ih =>
    obtain ⟨c, hc⟩ := hc.exists_shows printable
    obtain ⟨x, hx⟩ := ih
    refine ⟨.list [.word "while", c, x], ?_, ?_, ?_⟩
    · rw [sexpWith?, hc.written, hx.written]
      rfl
    · exact .headed printable (by decide) (List.forall_mem_cons.mpr
        ⟨hc.readable, List.forall_mem_singleton.mpr hx.readable⟩)
    · rw [Sexp.word, ofSexp, if_neg (by decide), if_neg (by decide), if_neg (by decide),
        if_neg (by decide), if_pos rfl, hc.read, hx.read]
      rfl

/-- The program of a source is written as S-expressions, one a line, that can be told apart and
from which the program can be read back. -/
theorem Accepts.exists_items {source : Text} {program : List Stmt} (h : Accepts source program) :
    ∃ items : List Sexp,
      treeTextWith? (Quoted.quoteWith printable) program =
        some (Text.unlines (items.map Sexp.text)) ∧
      (∀ x ∈ items, x.Readable printable) ∧
      Stmt.ofSexps printable items = program.map Stmt.erased := by
  have hshown : ∀ s ∈ program, ∃ x, s.Shows printable x := fun s hs =>
    (h.built (fun _ => written_of_mem_sourceTokens) s hs).exists_shows printable
  obtain ⟨items, hwritten, hreadable, hread⟩ := Stmt.exists_shows_all printable hshown
  refine ⟨items, ?_, hreadable, hread⟩
  rw [treeTextWith?, hwritten]
  rfl

end Trees

/-- The text of a program's tree is unambiguous: two sources whose trees have one text have the
same program, up to the lines of tokens and the keywords of prints, conditionals and loops. This
does not depend on which characters are printed as they are inside quotes. -/
theorem tree_text_unambiguous {source source' : Text} {program program' : List Stmt}
    (h : Accepts source program) (h' : Accepts source' program') :
    (treeText? program = treeText? program' →
      program.map Stmt.erased = program'.map Stmt.erased) ∧
    ∀ printable : Nat → Bool,
      treeTextWith? (Quoted.quoteWith printable) program =
        treeTextWith? (Quoted.quoteWith printable) program' →
      program.map Stmt.erased = program'.map Stmt.erased := by
  have hunambiguous (printable : Nat → Bool)
      (htext : treeTextWith? (Quoted.quoteWith printable) program =
        treeTextWith? (Quoted.quoteWith printable) program') :
      program.map Stmt.erased = program'.map Stmt.erased := by
    obtain ⟨items, hwritten, hreadable, hread⟩ := h.exists_items printable
    obtain ⟨items', hwritten', hreadable', hread'⟩ := h'.exists_items printable
    rw [hwritten, hwritten'] at htext
    have hitems := Sexp.unlines_inj hreadable hreadable' (Option.some.inj htext)
    rw [← hread, ← hread', hitems]
  exact ⟨hunambiguous Printable.isPrintable, hunambiguous⟩

/-- A `while`, and a `for` on other lines with another numeral for the same number: different
programs with one text, which agree up to lines and keywords. -/
theorem tree_text_unambiguous_of_for :
    let printing (line : Int) (x : Float) : Stmt :=
      .print ⟨.word .print, utf8 "print", none, line⟩ (.literal (some (.number x)))
    let program : List Stmt :=
      [.loop ⟨.word .while_, utf8 "while", none, 1⟩ (.literal (some (.bool true)))
        (printing 1 (Number.ofNumeral (utf8 "1") []))]
    let program' : List Stmt :=
      [.loop ⟨.word .for_, utf8 "for", none, 1⟩ (.literal (some (.bool true)))
        (printing 2 (Number.ofNumeral (utf8 "1") (utf8 "0")))]
    Accepts (utf8 "while (true) print 1;") program ∧
      Accepts (utf8 "for (;;)\nprint 1.0;") program' ∧
      treeText? program = some (utf8 "(while true (print 1))\n") ∧
      treeText? program' = some (utf8 "(while true (print 1))\n") ∧
      program ≠ program' ∧ program.map Stmt.erased = program'.map Stmt.erased := by
  intro printing program program'
  have h : Accepts (utf8 "while (true) print 1;") program := ⟨_, rfl, rfl⟩
  have h' : Accepts (utf8 "for (;;)\nprint 1.0;") program' := ⟨_, rfl, rfl⟩
  have htext : treeText? program = some (utf8 "(while true (print 1))\n") := by decide +kernel
  have htext' : treeText? program' = some (utf8 "(while true (print 1))\n") := by decide +kernel
  have hne : program ≠ program' := by
    intro heq
    have hloop := (List.cons.inj heq).1
    have hkind := congrArg Token.kind (Stmt.loop.inj hloop).1
    cases hkind
  have hsame := (tree_text_unambiguous h h').1 (htext.trans htext'.symm)
  exact ⟨h, h', htext, htext', hne, hsame⟩

end Lox
