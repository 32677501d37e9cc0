import Mathlib.Algebra.Group.Nat.Defs
import Lox.Text.Quoted
import Lox.Proofs.Text.Utf8

/-!
# Texts that show where they end

A text within a class of bytes ends where a byte outside the class follows, and a quoted text
ends at its closing quote, whatever characters count as printable. In both cases the text and
what follows it can be told from the two in a row.
-/

namespace Lox

/-- Two texts within a class of bytes, each followed by nothing or by a byte outside the class,
are the same if they are the same together with what follows. -/
theorem append_inj_of_class {p : UInt8 → Bool} {s s' rest rest' : Text}
    (hs : ∀ b ∈ s, p b = true) (hs' : ∀ b ∈ s', p b = true)
    (hrest : ∀ b ∈ rest.head?, p b = false) (hrest' : ∀ b ∈ rest'.head?, p b = false)
    (h : s ++ rest = s' ++ rest') : s = s' ∧ rest = rest' := by
  have hnone {t : Text} (ht : ∀ b ∈ t.head?, p b = false) : t.takeWhile p = [] := by
    cases t with
    | nil => rfl
    | cons b t =>
      rw [List.takeWhile_cons_of_neg]
      rw [ht b rfl]
      exact Bool.false_ne_true
  have htake := congrArg (List.takeWhile p) h
  rw [List.takeWhile_append_of_pos hs, List.takeWhile_append_of_pos hs', hnone hrest,
    hnone hrest', List.append_nil, List.append_nil] at htake
  exact ⟨htake, List.append_cancel_left (htake ▸ h)⟩

namespace Rune

/-- A rune that can be part of a text: a character with its encoding, or a byte that is none. -/
def InText : Rune → Prop
  | scalar code bytes => IsScalarValue code ∧ bytes = encode code
  | stray b => 0x80 ≤ b.toNat

/-- The rune at the start of a text can be part of one. -/
theorem inText_first (lead : UInt8) (rest : Text) : (first lead rest).InText := by
  cases h : first lead rest with
  | scalar code bytes =>
    obtain ⟨hcode, hbytes, -⟩ := encode_of_first h
    exact ⟨hcode, hbytes.symm⟩
  | stray b =>
    obtain rfl := eq_of_first_stray h
    by_cases hb : b.toNat < 0x80
    · rw [first_one rest hb] at h
      cases h
    · exact Nat.le_of_not_lt hb

/-- So can every rune of a text. -/
theorem inText_of_mem_splitFrom {skip : Nat} {t : Text} {rune : Rune}
    (h : rune ∈ splitFrom skip t) : rune.InText := by
  induction t generalizing skip with
  | nil =>
    rw [splitFrom] at h
    cases h
  | cons b t ih =>
    cases skip with
    | zero =>
      rw [splitFrom] at h
      obtain rfl | h := List.mem_cons.mp h
      · exact inText_first b t
      · exact ih h
    | succ skip =>
      rw [splitFrom] at h
      exact ih h

/-- The runes of a text make it up. -/
theorem flatMap_bytes_splitFrom (skip : Nat) (t : Text) :
    (splitFrom skip t).flatMap bytes = t.drop skip := by
  induction t generalizing skip with
  | nil => rw [splitFrom, List.flatMap_nil, List.drop_nil]
  | cons b t ih =>
    cases skip with
    | zero =>
      obtain ⟨hne, rest, hrest⟩ := ((starts_iff b t _).mpr rfl).exists_bytes
      have hlength : (first b t).bytes.length - 1 + 1 = (first b t).bytes.length :=
        Nat.succ_pred_eq_of_pos (List.length_pos_iff.mpr hne)
      have hdrop : t.drop ((first b t).bytes.length - 1) = rest := by
        rw [← List.drop_succ_cons (a := b), hlength, ← hrest, List.drop_left]
      rw [splitFrom, List.flatMap_cons, ih, hdrop, hrest, List.drop_zero]
    | succ skip => rw [splitFrom, ih, List.drop_succ_cons]

/-- A text is known by its runes. -/
theorem split_inj {t t' : Text} (h : split t = split t') : t = t' := by
  have hjoin := congrArg (List.flatMap bytes) h
  rwa [split, split, flatMap_bytes_splitFrom, flatMap_bytes_splitFrom, List.drop_zero,
    List.drop_zero] at hjoin

end Rune

namespace Quoted

/-- Hexadecimal digits are known by their texts. -/
theorem hexDigit_inj {m n : Nat} (hm : m < 16) (hn : n < 16) (h : hexDigit m = hexDigit n) :
    m = n := by
  have key : ∀ m n : Fin 16, hexDigit m = hexDigit n → m = n := by decide
  exact congrArg Fin.val (key ⟨m, hm⟩ ⟨n, hn⟩ h)

/-- A number in hexadecimal has as many digits as it was given. -/
theorem length_hex (width n : Nat) : (hex width n).length = width := by
  induction width generalizing n with
  | zero => rfl
  | succ width ih => rw [hex, List.length_append, ih, List.length_singleton]

/-- A number that fits its digits is known by them. -/
theorem hex_inj {width m n : Nat} (hm : m < 16 ^ width) (hn : n < 16 ^ width)
    (h : hex width m = hex width n) : m = n := by
  induction width generalizing m n with
  | zero => omega
  | succ width ih =>
    rw [Nat.pow_succ] at hm hn
    obtain ⟨hfront, hlast⟩ := List.append_inj' h rfl
    have hquotient := ih (by omega) (by omega) hfront
    have hremainder := hexDigit_inj (Nat.mod_lt m (by decide)) (Nat.mod_lt n (by decide))
      (List.singleton_inj.mp hlast)
    omega

/-- How many hexadecimal digits follow a letter after a backslash. -/
def digitsAfter (letter : UInt8) : Nat :=
  if letter = 0x78 then 2 else if letter = 0x75 then 4 else if letter = 0x55 then 8 else 0

/-- The code point that a letter without digits after it stands for. -/
def named (letter : UInt8) : Nat :=
  if letter = 0x61 then 0x07
  else if letter = 0x62 then 0x08
  else if letter = 0x66 then 0x0C
  else if letter = 0x6E then 0x0A
  else if letter = 0x72 then 0x0D
  else if letter = 0x74 then 0x09
  else if letter = 0x76 then 0x0B
  else letter.toNat

/-- The character of a code point. -/
def character (code : Nat) : Rune := .scalar code (Rune.encode code)

/-- The rune that a letter after a backslash stands for, with the number that its digits spell. -/
def unescaped (letter : UInt8) (n : Nat) : Rune :=
  if letter = 0x78 then if n < 0x80 then character n else .stray n.toUInt8
  else if letter = 0x75 ∨ letter = 0x55 then character n
  else character (named letter)

/-- The written forms of runes inside quotes: a character as it is, or an escape. -/
inductive Written : Rune → Text → Prop
  | plain {code : Nat} (hcode : Rune.IsScalarValue code) (hquote : code ≠ 0x22)
      (hslash : code ≠ 0x5C) : Written (character code) (Rune.encode code)
  | escaped (letter : UInt8) {n : Nat} (hn : n < 16 ^ digitsAfter letter) :
      Written (unescaped letter n) (0x5C :: letter :: hex (digitsAfter letter) n)

/-- A letter without digits after it stands for the character it names. -/
theorem Written.letter (letter : UInt8) (h : digitsAfter letter = 0) :
    Written (character (named letter)) [0x5C, letter] := by
  have hescape := Written.escaped letter (n := 0) (Nat.pow_pos (by decide))
  have hunescaped : unescaped letter 0 = character (named letter) := by
    simp only [digitsAfter] at h
    split at h
    · cases h
    · split at h
      · cases h
      · split at h
        · cases h
        · next hx hu hU => rw [unescaped, if_neg hx, if_neg (not_or.mpr ⟨hu, hU⟩)]
  rwa [hunescaped, h] at hescape

/-- A control that has a letter is named by it. -/
theorem named_of_controlLetter? {code : Nat} {letter : Text}
    (h : controlLetter? code = some letter) :
    ∃ b, letter = [b] ∧ digitsAfter b = 0 ∧ named b = code := by
  unfold controlLetter? at h
  simp only [beq_iff_eq] at h
  repeat' split at h
  all_goals cases h
  all_goals next hcode => exact ⟨_, rfl, by decide, hcode ▸ by decide⟩

/-- Whatever counts as printable, what is written for a rune of a text is a written form. -/
theorem written_escape (printable : Nat → Bool) {rune : Rune} (h : rune.InText) :
    Written rune (escape printable rune) := by
  cases rune with
  | stray b =>
    have hescape := Written.escaped 0x78 (n := b.toNat) b.toNat_lt
    have hunescaped : unescaped 0x78 b.toNat = .stray b := by
      rw [unescaped, if_pos rfl, if_neg (Nat.not_lt.mpr h), Rune.toUInt8_eq rfl]
    rwa [hunescaped] at hescape
  | scalar code bytes =>
    obtain ⟨hcode, rfl⟩ := h
    simp only [escape, Bool.or_eq_true, beq_iff_eq, decide_eq_true_eq]
    split
    · next hspecial =>
      obtain rfl | rfl := hspecial
      · exact Written.letter 0x22 (by decide)
      · exact Written.letter 0x5C (by decide)
    next hspecial =>
    split
    · exact .plain hcode (fun h => hspecial (.inl h)) (fun h => hspecial (.inr h))
    split
    · next letter hletter =>
      obtain ⟨b, rfl, hdigits, rfl⟩ := named_of_controlLetter? hletter
      exact Written.letter b hdigits
    split
    · next hcontrol =>
      have hdigits : code < 16 ^ digitsAfter 0x78 := by
        rw [digitsAfter, if_pos rfl]
        omega
      have hescape := Written.escaped 0x78 hdigits
      rwa [unescaped, if_pos rfl, if_pos (by omega)] at hescape
    split
    · next hsmall => exact Written.escaped 0x75 hsmall
    · have hdigits : code < 16 ^ digitsAfter 0x55 := by
        have hbound : code < 0x110000 := by
          simp only [Rune.IsScalarValue] at hcode
          omega
        exact Nat.lt_trans hbound (by decide)
      exact Written.escaped 0x55 hdigits

/-- A character written as it is starts with no backslash and no quote. -/
theorem Written.plain_ne {code : Nat} (hcode : Rune.IsScalarValue code) (b : UInt8)
    (hb : b.toNat < 0x80) (hne : code ≠ b.toNat) (rest more : Text) :
    Rune.encode code ++ rest ≠ b :: more := by
  intro h
  have hfirst := Rune.first_of_encode hcode h.symm
  rw [Rune.first_one more hb] at hfirst
  exact hne (Rune.scalar.inj hfirst).1.symm

/-- A written form and what follows it can be told from the two in a row. -/
theorem Written.append_inj {rune rune' : Rune} {s s' rest rest' : Text} (h : Written rune s)
    (h' : Written rune' s') (heq : s ++ rest = s' ++ rest') : rune = rune' ∧ rest = rest' := by
  cases h with
  | @plain code hcode hquote hslash =>
    cases h' with
    | @plain code' hcode' =>
      have hne : Rune.encode code ++ rest ≠ [] :=
        List.append_ne_nil_of_left_ne_nil (Rune.Starts.scalar hcode []).exists_bytes.1 rest
      obtain ⟨b, more, hmore⟩ := List.exists_cons_of_ne_nil hne
      have hfirst := Rune.first_of_encode hcode hmore.symm
      have hfirst' := Rune.first_of_encode hcode' (hmore.symm.trans heq)
      obtain ⟨rfl, -⟩ := Rune.scalar.inj (hfirst.symm.trans hfirst')
      exact ⟨rfl, List.append_cancel_left heq⟩
    | escaped letter hn => exact absurd heq (plain_ne hcode 0x5C (by decide) hslash _ _)
  | @escaped letter n hn =>
    cases h' with
    | plain hcode' _ hslash' => exact absurd heq.symm (plain_ne hcode' 0x5C (by decide) hslash' _ _)
    | @escaped letter' n' hn' =>
      obtain ⟨-, htail⟩ := List.cons.inj heq
      obtain ⟨rfl, hdigits⟩ := List.cons.inj htail
      -- The letter tells how many digits follow, so no escape is the start of another.
      have hlength : (hex (digitsAfter letter) n).length = (hex (digitsAfter letter) n').length := by
        rw [length_hex, length_hex]
      obtain ⟨hhex, hrest⟩ := List.append_inj hdigits hlength
      obtain rfl := hex_inj hn hn' hhex
      exact ⟨rfl, hrest⟩

/-- No written form starts with a quote. -/
theorem Written.append_ne_quote {rune : Rune} {s : Text} (h : Written rune s) (rest more : Text) :
    s ++ rest ≠ 0x22 :: more := by
  cases h with
  | plain hcode hquote => exact plain_ne hcode 0x22 (by decide) hquote _ _
  | escaped letter hn =>
    intro h
    cases (List.cons.inj h).1

/-- Runes written up to a closing quote, and what follows it, can be told from the two in a
row. -/
theorem flatMap_escape_inj (printable : Nat → Bool) {runes runes' : List Rune} {rest rest' : Text}
    (h : ∀ rune ∈ runes, rune.InText) (h' : ∀ rune ∈ runes', rune.InText)
    (heq : runes.flatMap (escape printable) ++ 0x22 :: rest =
      runes'.flatMap (escape printable) ++ 0x22 :: rest') : runes = runes' ∧ rest = rest' := by
  induction runes generalizing runes' with
  | nil =>
    cases runes' with
    | nil => exact ⟨rfl, (List.cons.inj heq).2⟩
    | cons rune' runes' =>
      rw [List.flatMap_cons, List.append_assoc] at heq
      have hwritten := written_escape printable (h' rune' List.mem_cons_self)
      exact absurd heq.symm (hwritten.append_ne_quote _ _)
  | cons rune runes ih =>
    have hwritten := written_escape printable (h rune List.mem_cons_self)
    rw [List.flatMap_cons, List.append_assoc] at heq
    cases runes' with
    | nil => exact absurd heq (hwritten.append_ne_quote _ _)
    | cons rune' runes' =>
      rw [List.flatMap_cons, List.append_assoc] at heq
      have hwritten' := written_escape printable (h' rune' List.mem_cons_self)
      obtain ⟨rfl, htail⟩ := hwritten.append_inj hwritten' heq
      obtain ⟨rfl, hrest⟩ := ih (fun r hr => h r (List.mem_cons_of_mem _ hr))
        (fun r hr => h' r (List.mem_cons_of_mem _ hr)) htail
      exact ⟨rfl, hrest⟩

/-- A quoted text and what follows it can be told from the two in a row, whatever counts as
printable. -/
theorem quoteWith_append_inj (printable : Nat → Bool) {t t' rest rest' : Text}
    (h : quoteWith printable t ++ rest = quoteWith printable t' ++ rest') :
    t = t' ∧ rest = rest' := by
  have hquote : utf8 "\"" = [0x22] := rfl
  simp only [quoteWith, hquote, List.append_assoc, List.cons_append, List.nil_append,
    List.cons.injEq, true_and] at h
  obtain ⟨hsplit, hrest⟩ := flatMap_escape_inj printable
    (fun _ => Rune.inText_of_mem_splitFrom) (fun _ => Rune.inText_of_mem_splitFrom) h
  exact ⟨Rune.split_inj hsplit, hrest⟩

end Quoted

end Lox
