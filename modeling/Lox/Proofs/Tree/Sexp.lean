import Lox.Proofs.Text.Delimited
import Lox.Tree.Sexp

/-!
# Reading S-expressions

A symbol without blanks, parentheses and quotes ends where one of them follows, a quoted text
ends at its closing quote, and a list at its closing parenthesis. So an S-expression made of such
symbols can be told from its text, and so can several in a row.
-/

namespace Lox.Sexp

/-- The bytes of a symbol that is not quoted: all but blank, quote, parentheses and line feed. -/
def isPlain (b : UInt8) : Bool :=
  b != 0x20 && b != 0x22 && b != 0x28 && b != 0x29 && b != Text.lineFeed

/-- A symbol that is not quoted has at least one byte. -/
def Plain (t : Text) : Prop := t ≠ [] ∧ ∀ b ∈ t, isPlain b = true

instance (t : Text) : Decidable (Plain t) :=
  decidable_of_iff (t ≠ [] ∧ t.all isPlain = true) (and_congr_right fun _ => List.all_eq_true)

/-- The S-expressions whose symbols are plain or quoted texts. -/
inductive Readable (printable : Nat → Bool) : Sexp → Prop
  | plain {t : Text} (h : Plain t) : Readable printable (.atom t)
  | quoted (s : Text) : Readable printable (.atom (Quoted.quoteWith printable s))
  | list {items : List Sexp} (h : ∀ x ∈ items, x.Readable printable) :
      Readable printable (.list items)

/-- What may follow an S-expression: nothing, or a byte that is part of no plain symbol. -/
def Ends (rest : Text) : Prop := ∀ b ∈ rest.head?, isPlain b = false

/-- A byte that is part of no plain symbol ends one. -/
theorem Ends.cons {b : UInt8} (hb : isPlain b = false) (rest : Text) : Ends (b :: rest) := by
  intro c hc
  rwa [← Option.some.inj hc]

/-- What follows the first item of a list: a closing parenthesis, or a blank and more items. -/
def afterItem : List Sexp → Text → Text
  | [], rest => 0x29 :: rest
  | items, rest => 0x20 :: (texts items ++ 0x29 :: rest)

/-- The items of a list up to its end are its first item and what follows that. -/
theorem texts_cons (x : Sexp) (items : List Sexp) (rest : Text) :
    texts (x :: items) ++ 0x29 :: rest = x.text ++ afterItem items rest := by
  cases items with
  | nil => rw [texts, afterItem]
  | cons y items =>
    have hblank : utf8 " " = [0x20] := rfl
    rw [texts, afterItem, hblank, List.append_assoc, List.append_assoc, List.cons_append,
      List.nil_append]
    · exact nofun
    · exact nofun

/-- What follows the first item of a list ends it. -/
theorem ends_afterItem (items : List Sexp) (rest : Text) : Ends (afterItem items rest) := by
  cases items with
  | nil => exact .cons (by decide) rest
  | cons x items => exact .cons (by decide) _

variable {printable : Nat → Bool} {x y : Sexp} {rest rest' : Text}

/-- A plain symbol starts with a byte of such symbols. -/
theorem Plain.append_ne {t : Text} (h : Plain t) {b : UInt8} (hb : isPlain b = false) :
    t ++ rest ≠ b :: rest' := by
  intro heq
  obtain ⟨c, more, rfl⟩ := List.exists_cons_of_ne_nil h.1
  have hc := h.2 c List.mem_cons_self
  rw [(List.cons.inj heq).1, hb] at hc
  cases hc

/-- No S-expression starts with a closing parenthesis. -/
theorem Readable.text_append_ne (h : x.Readable printable) : x.text ++ rest ≠ 0x29 :: rest' := by
  cases h with
  | plain h => exact h.append_ne (by decide)
  | quoted s =>
    intro heq
    cases (List.cons.inj heq).1
  | list h =>
    intro heq
    cases (List.cons.inj heq).1

/-- An S-expression that can be told, with what follows it, from any other that is followed by
something. -/
def Separates (printable : Nat → Bool) (x : Sexp) : Prop :=
  ∀ y : Sexp, y.Readable printable → ∀ rest rest', Ends rest → Ends rest' →
    x.text ++ rest = y.text ++ rest' → x = y ∧ rest = rest'

/-- The items of a list and what follows it can be told from the two in a row if each item can. -/
theorem texts_append_inj {items items' : List Sexp} (h : ∀ x ∈ items, x.Readable printable)
    (hsep : ∀ x ∈ items, x.Separates printable) (h' : ∀ x ∈ items', x.Readable printable)
    (heq : texts items ++ 0x29 :: rest = texts items' ++ 0x29 :: rest') :
    items = items' ∧ rest = rest' := by
  induction items generalizing items' with
  | nil =>
    cases items' with
    | nil => exact ⟨rfl, (List.cons.inj heq).2⟩
    | cons y items' =>
      rw [texts_cons] at heq
      exact absurd heq.symm (h' y List.mem_cons_self).text_append_ne
  | cons x items ih =>
    obtain ⟨hx, hitems⟩ := List.forall_mem_cons.mp h
    obtain ⟨hxsep, hsep⟩ := List.forall_mem_cons.mp hsep
    rw [texts_cons] at heq
    cases items' with
    | nil => exact absurd heq hx.text_append_ne
    | cons y items' =>
      obtain ⟨hy, hitems'⟩ := List.forall_mem_cons.mp h'
      rw [texts_cons] at heq
      obtain ⟨rfl, htail⟩ := hxsep y hy _ _ (ends_afterItem _ _) (ends_afterItem _ _) heq
      -- A blank or a parenthesis comes next, and it tells whether the list goes on.
      cases items with
      | nil =>
        cases items' with
        | nil => exact ⟨rfl, (List.cons.inj htail).2⟩
        | cons z items' => cases (List.cons.inj htail).1
      | cons w items =>
        cases items' with
        | nil => cases (List.cons.inj htail).1
        | cons z items' =>
          obtain ⟨heq', hrest⟩ := ih hitems hsep hitems' (List.cons.inj htail).2
          exact ⟨by rw [heq'], hrest⟩

/-- The text of a list. -/
theorem text_list (items : List Sexp) (rest : Text) :
    (list items).text ++ rest = 0x28 :: (texts items ++ 0x29 :: rest) := by
  have hopen : utf8 "(" = [0x28] := rfl
  have hclose : utf8 ")" = [0x29] := rfl
  rw [text, hopen, hclose, List.append_assoc, List.append_assoc, List.singleton_append,
    List.singleton_append]

/-- An S-expression and what follows it can be told from the two in a row. -/
theorem Readable.separates (h : x.Readable printable) : x.Separates printable := by
  induction h with
  | plain h =>
    intro y hy rest rest' hrest hrest' heq
    cases hy with
    | plain h' =>
      obtain ⟨rfl, hrest⟩ := append_inj_of_class h.2 h'.2 hrest hrest' heq
      exact ⟨rfl, hrest⟩
    | quoted s => exact absurd heq (h.append_ne (by decide))
    | list h' => exact absurd heq (h.append_ne (by decide))
  | quoted s =>
    intro y hy rest rest' hrest hrest' heq
    cases hy with
    | plain h => exact absurd heq.symm (h.append_ne (by decide))
    | quoted s' =>
      obtain ⟨rfl, hrest⟩ := Quoted.quoteWith_append_inj printable heq
      exact ⟨rfl, hrest⟩
    | list h' => cases (List.cons.inj heq).1
  | @list items hitems ih =>
    intro y hy rest rest' hrest hrest' heq
    rw [text_list] at heq
    cases hy with
    | plain h => exact absurd heq.symm (h.append_ne (by decide))
    | quoted s => cases (List.cons.inj heq).1
    | @list items' hitems' =>
      rw [text_list] at heq
      obtain ⟨rfl, hrest⟩ := texts_append_inj hitems ih hitems' (List.cons.inj heq).2
      exact ⟨rfl, hrest⟩

/-- The first of several lines. -/
theorem unlines_cons (x : Sexp) (items : List Sexp) :
    Text.unlines ((x :: items).map text) =
      x.text ++ Text.lineFeed :: Text.unlines (items.map text) := by
  rw [Text.unlines, Text.unlines, List.map_cons, List.flatMap_cons, Text.line, List.append_assoc,
    List.singleton_append]

/-- Several S-expressions, one a line, can be told from their text. -/
theorem unlines_inj {items items' : List Sexp} (h : ∀ x ∈ items, x.Readable printable)
    (h' : ∀ x ∈ items', x.Readable printable)
    (heq : Text.unlines (items.map text) = Text.unlines (items'.map text)) : items = items' := by
  have hend (more : Text) : Ends (Text.lineFeed :: more) := .cons (by decide) more
  have hne (x : Sexp) (more : List Sexp) : Text.unlines ((x :: more).map text) ≠ [] := by
    rw [unlines_cons]
    exact List.append_ne_nil_of_right_ne_nil _ (List.cons_ne_nil _ _)
  induction items generalizing items' with
  | nil =>
    cases items' with
    | nil => rfl
    | cons y items' => exact absurd heq.symm (hne y items')
  | cons x items ih =>
    cases items' with
    | nil => exact absurd heq (hne x items)
    | cons y items' =>
      obtain ⟨hx, hitems⟩ := List.forall_mem_cons.mp h
      obtain ⟨hy, hitems'⟩ := List.forall_mem_cons.mp h'
      rw [unlines_cons, unlines_cons] at heq
      obtain ⟨rfl, htail⟩ := hx.separates y hy _ _ (hend _) (hend _) heq
      rw [ih hitems hitems' (List.cons.inj htail).2]

end Lox.Sexp
