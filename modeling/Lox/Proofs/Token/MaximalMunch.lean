import Mathlib.Data.List.Basic
import Lox.Proofs.Token.Pattern

/-!
# Splitting takes the longest token

Every source falls into segments in one way only, and that way is how it is split. So
scanning gives the tokens of these segments, in their order and with the lines they end on,
or the errors of the bad ones.
-/

namespace Lox

/-- No letter is a digit. -/
theorem Text.isDigit_of_isLetter {b : UInt8} (h : Text.isLetter b = true) :
    Text.isDigit b = false := by
  simp only [isLetter, isDigit, Bool.or_eq_true, Bool.and_eq_true, decide_eq_true_eq, beq_iff_eq,
    UInt8.le_iff_toNat_le, ← UInt8.toNat_inj, UInt8.reduceToNat, Bool.and_eq_false_iff,
    decide_eq_false_iff_not] at h ⊢
  omega

/-- A text within a class of bytes at the start of another is no longer than the class goes on
there. -/
theorem length_le_takeWhile {p : UInt8 → Bool} {t source : Text} (h : ∀ b ∈ t, p b = true)
    (hstart : t <+: source) : t.length ≤ (source.takeWhile p).length := by
  obtain ⟨rest, rfl⟩ := hstart
  rw [List.takeWhile_append_of_pos h, List.length_append]
  exact Nat.le_add_right _ _

namespace Segment

/-- A digit starts a numeral. -/
theorem first_of_digit {b : UInt8} (h : Text.isDigit b = true) (rest : Text) :
    first b rest = numeral b rest := by
  unfold first
  split
  case h_21 => rw [if_pos h]
  all_goals exact absurd h (by decide)

/-- A letter starts a name. -/
theorem first_of_letter {b : UInt8} (h : Text.isLetter b = true) (rest : Text) :
    first b rest = name b rest := by
  have hdigit := Text.isDigit_of_isLetter h
  unfold first
  split
  case h_21 => rw [hdigit, if_neg Bool.false_ne_true, if_pos h]
  all_goals exact absurd h (by decide)

/-- A name that spells no reserved word is an identifier. -/
theorem nameKind_of_ne {lexeme : Text} (h : ∀ k : Keyword, lexeme ≠ k.spelling) :
    nameKind lexeme = .identifier := by
  unfold nameKind
  split
  · next k hk => exact absurd (Keyword.ofSpelling?_eq_some_iff.mp hk) (h k)
  · rfl

/-- A name has the pattern of its kind. -/
theorem pattern_name {letter : UInt8} {rest : Text} (hl : Text.isLetter letter = true)
    (h : ∀ b ∈ rest, Text.isLetter b = true ∨ Text.isDigit b = true) :
    Pattern (nameKind (letter :: rest)) (letter :: rest) none := by
  unfold nameKind
  split
  · next k hk =>
    rw [Keyword.ofSpelling?_eq_some_iff.mp hk]
    exact .word k
  · next hk =>
    refine .identifier hl h fun k heq => ?_
    rw [Keyword.ofSpelling?_eq_some_iff.mpr heq] at hk
    cases hk

/-- A string up to its closing quote is a token. -/
theorem quoted_of_body {body : Text} (h : ∀ b ∈ body, b ≠ 0x22) (rest : Text) :
    quoted (body ++ 0x22 :: rest) =
      token .string (utf8 "\"" ++ body ++ utf8 "\"") (some (.string body)) := by
  have hin : ∀ b ∈ body, (b != 0x22) = true := fun b hb => bne_iff_ne.mpr (h b hb)
  have htake : (body ++ 0x22 :: rest).takeWhile (· != 0x22) = body := by
    rw [List.takeWhile_append_of_pos hin, List.takeWhile_cons_of_neg (by decide), List.append_nil]
  have hdrop : (body ++ 0x22 :: rest).dropWhile (· != 0x22) = 0x22 :: rest := by
    rw [List.dropWhile_append_of_pos hin, List.dropWhile_cons_of_neg (by decide)]
  simp only [quoted, htake, hdrop]

/-- Digits alone are a numeral without a fraction. -/
theorem numeral_of_digits {digit : UInt8} {rest : Text}
    (h : ∀ b ∈ rest, Text.isDigit b = true) :
    numeral digit rest =
      token .number (digit :: rest) (some (.number (Number.ofNumeral (digit :: rest) []))) := by
  have htake : (rest ++ []).takeWhile Text.isDigit = rest ++ [] := List.takeWhile_append_of_pos h
  have hdrop : (rest ++ []).dropWhile Text.isDigit = [] := List.dropWhile_append_of_pos h
  rw [List.append_nil] at htake hdrop
  simp only [numeral, htake, hdrop, fraction, List.isEmpty_nil, if_true]

/-- Digits, a point and digits are a numeral with a fraction, which goes on as far as digits
do. -/
theorem numeral_of_decimals {digit : UInt8} {digits decimals : Text} (rest : Text)
    (h : ∀ b ∈ digits, Text.isDigit b = true) (hne : decimals ≠ [])
    (h' : ∀ b ∈ decimals, Text.isDigit b = true) :
    numeral digit (digits ++ 0x2E :: (decimals ++ rest)) =
      token .number
        (digit :: digits ++ utf8 "." ++ (decimals ++ rest.takeWhile Text.isDigit))
        (some (.number (Number.ofNumeral (digit :: digits)
          (decimals ++ rest.takeWhile Text.isDigit)))) := by
  have htake : (digits ++ 0x2E :: (decimals ++ rest)).takeWhile Text.isDigit = digits := by
    rw [List.takeWhile_append_of_pos h, List.takeWhile_cons_of_neg (by decide), List.append_nil]
  have hdrop : (digits ++ 0x2E :: (decimals ++ rest)).dropWhile Text.isDigit =
      0x2E :: (decimals ++ rest) := by
    rw [List.dropWhile_append_of_pos h, List.dropWhile_cons_of_neg (by decide)]
  have hempty : (decimals ++ rest.takeWhile Text.isDigit).isEmpty = false :=
    List.isEmpty_eq_false_iff.mpr (List.append_ne_nil_of_left_ne_nil hne _)
  simp only [numeral, htake, hdrop, fraction, List.takeWhile_append_of_pos h', hempty,
    Bool.false_eq_true, if_false]

/-- A numeral is a token of its pattern at the start of the source. -/
theorem exists_numeral {digit : UInt8} (h : Text.isDigit digit = true) (rest : Text) :
    ∃ t literal more, numeral digit rest = token .number (digit :: t) literal ∧
      Pattern .number (digit :: t) literal ∧ rest = t ++ more := by
  have hdigits : ∀ b ∈ digit :: rest.takeWhile Text.isDigit, Text.isDigit b = true := by
    intro b hb
    rcases List.mem_cons.mp hb with rfl | hb
    · exact h
    · exact List.all_eq_true.mp List.all_takeWhile b hb
  have hrest : rest = rest.takeWhile Text.isDigit ++ rest.dropWhile Text.isDigit :=
    List.takeWhile_append_dropWhile.symm
  cases hdecimals : fraction (rest.dropWhile Text.isDigit) with
  | nil =>
    refine ⟨rest.takeWhile Text.isDigit, _, _, ?_, .whole (List.cons_ne_nil _ _) hdigits, hrest⟩
    simp only [numeral, hdecimals, List.isEmpty_nil, if_true]
  | cons d decimals =>
    have hfraction : ∃ after, rest.dropWhile Text.isDigit = 0x2E :: after ∧
        after.takeWhile Text.isDigit = d :: decimals := by
      unfold fraction at hdecimals
      split at hdecimals
      · next after hafter => exact ⟨after, hafter, hdecimals⟩
      · cases hdecimals
    obtain ⟨after, hafter, htake⟩ := hfraction
    have hall : ∀ b ∈ d :: decimals, Text.isDigit b = true := by
      rw [← htake]
      exact fun b hb => List.all_eq_true.mp List.all_takeWhile b hb
    refine ⟨rest.takeWhile Text.isDigit ++ utf8 "." ++ (d :: decimals), _,
      after.dropWhile Text.isDigit, ?_,
      .decimal (List.cons_ne_nil _ _) hdigits (List.cons_ne_nil d decimals) hall, ?_⟩
    · simp only [numeral, hdecimals, List.isEmpty_cons, Bool.false_eq_true, if_false]
      rfl
    · rw [List.append_assoc, List.append_assoc, ← htake, List.takeWhile_append_dropWhile]
      rw [hafter] at hrest
      exact hrest

/-- A numeral takes all digits that follow. -/
theorem length_whole_le (digit : UInt8) (rest : Text) :
    (rest.takeWhile Text.isDigit).length + 1 ≤ (numeral digit rest).text.length := by
  simp only [numeral, text]
  split
  · exact Nat.le_refl _
  · simp only [List.length_append, List.length_cons]
    omega

/-- The text of a token alone is that token. -/
theorem first_of_pattern {kind : Kind} {b : UInt8} {rest : Text} {literal : Option Value}
    (h : Pattern kind (b :: rest) literal) : first b rest = token kind (b :: rest) literal := by
  generalize hlexeme : b :: rest = lexeme at h
  cases h with
  | sign p => cases p <;> cases hlexeme <;> rfl
  | string h =>
    obtain ⟨rfl, rfl⟩ := List.cons.inj hlexeme
    exact quoted_of_body h []
  | whole _ h =>
    subst hlexeme
    rw [first_of_digit (h b List.mem_cons_self),
      numeral_of_digits fun c hc => h c (List.mem_cons_of_mem b hc)]
  | @decimal digits decimals hne h hne' h' =>
    obtain ⟨digit, digits, rfl⟩ := List.exists_cons_of_ne_nil hne
    obtain ⟨rfl, rfl⟩ := List.cons.inj hlexeme
    have htext : digits ++ utf8 "." ++ decimals = digits ++ 0x2E :: (decimals ++ []) := by
      rw [List.append_nil, List.append_assoc]
      rfl
    change first b (digits ++ utf8 "." ++ decimals) = _
    rw [first_of_digit (h b List.mem_cons_self), htext,
      numeral_of_decimals [] (fun c hc => h c (List.mem_cons_of_mem b hc)) hne' h',
      List.takeWhile_nil, List.append_nil]
  | word k => cases k <;> cases hlexeme <;> rfl
  | identifier hl h hw =>
    obtain ⟨rfl, rfl⟩ := List.cons.inj hlexeme
    have hpart : ∀ c ∈ rest, isNamePart c = true := fun c hc => Bool.or_eq_true_iff.mpr (h c hc)
    have htake : (rest ++ []).takeWhile isNamePart = rest ++ [] :=
      List.takeWhile_append_of_pos hpart
    rw [List.append_nil] at htake
    rw [first_of_letter hl]
    simp only [name, htake, nameKind_of_ne hw]

end Segment

/-- What the text of a token can be, by its first byte. -/
inductive Shape : UInt8 → Text → Prop
  | sign {b : UInt8} {t : Text} (p : Punctuator) (hp : p.spelling = b :: t)
      (hd : Text.isDigit b = false) (hl : Text.isLetter b = false) (hq : b ≠ 0x22) : Shape b t
  | string {body : Text} (h : ∀ c ∈ body, c ≠ 0x22) : Shape 0x22 (body ++ [0x22])
  | whole {b : UInt8} {t : Text} (hb : Text.isDigit b = true)
      (h : ∀ c ∈ t, Text.isDigit c = true) : Shape b t
  | decimal {b : UInt8} {digits decimals : Text} (hb : Text.isDigit b = true)
      (h : ∀ c ∈ digits, Text.isDigit c = true) (hne : decimals ≠ [])
      (h' : ∀ c ∈ decimals, Text.isDigit c = true) : Shape b (digits ++ 0x2E :: decimals)
  | name {b : UInt8} {t : Text} (hb : Text.isLetter b = true)
      (h : ∀ c ∈ t, Segment.isNamePart c = true) : Shape b t

/-- Every text of a token has one of these shapes. -/
theorem Pattern.shape {kind : Kind} {lexeme : Text} {literal : Option Value}
    (h : Pattern kind lexeme literal) : ∃ b t, lexeme = b :: t ∧ Shape b t := by
  cases h with
  | sign p =>
    have hp : ∃ b t, p.spelling = b :: t ∧ Text.isDigit b = false ∧ Text.isLetter b = false ∧
        b ≠ 0x22 := by
      cases p <;> exact ⟨_, _, rfl, by decide, by decide, by decide⟩
    obtain ⟨b, t, hb, hd, hl, hq⟩ := hp
    exact ⟨b, t, hb, .sign p hb hd hl hq⟩
  | string h => exact ⟨0x22, _, rfl, .string h⟩
  | whole hne h =>
    obtain ⟨b, t, rfl⟩ := List.exists_cons_of_ne_nil hne
    exact ⟨b, t, rfl, .whole (h b List.mem_cons_self) fun c hc => h c (List.mem_cons_of_mem b hc)⟩
  | decimal hne h hne' h' =>
    obtain ⟨b, t, rfl⟩ := List.exists_cons_of_ne_nil hne
    refine ⟨b, _, ?_, .decimal (h b List.mem_cons_self)
      (fun c hc => h c (List.mem_cons_of_mem b hc)) hne' h'⟩
    rw [List.append_assoc, List.cons_append]
    rfl
  | word k =>
    have hk : ∃ b t, k.spelling = b :: t ∧ Text.isLetter b = true ∧
        t.all Segment.isNamePart = true := by
      cases k <;> exact ⟨_, _, rfl, rfl, rfl⟩
    obtain ⟨b, t, hb, hl, ht⟩ := hk
    exact ⟨b, t, hb, .name hl (List.all_eq_true.mp ht)⟩
  | identifier hl h _ => exact ⟨_, _, rfl, .name hl fun c hc => Bool.or_eq_true_iff.mpr (h c hc)⟩

/-- A text is the token of only one kind and one literal. -/
theorem Pattern.unique {kind kind' : Kind} {lexeme : Text} {literal literal' : Option Value}
    (h : Pattern kind lexeme literal) (h' : Pattern kind' lexeme literal') :
    kind = kind' ∧ literal = literal' := by
  obtain ⟨b, t, rfl, -⟩ := h.shape
  have heq := (Segment.first_of_pattern h).symm.trans (Segment.first_of_pattern h')
  obtain ⟨hkind, -, hliteral⟩ := Segment.token.inj heq
  exact ⟨hkind, hliteral⟩

namespace Shape

variable {b : UInt8} {t rest : Text}

/-- No token starts with a blank. -/
theorem not_mem_blanks (h : Shape b t) : b ∉ Segment.blanks := by
  cases h with
  | sign p hp => cases p <;> cases hp <;> decide
  | string => decide
  | whole hb | decimal hb =>
    intro hmem
    simp only [Segment.blanks, List.mem_cons, List.not_mem_nil, or_false] at hmem
    rcases hmem with rfl | rfl | rfl | rfl <;> cases hb
  | name hb =>
    intro hmem
    simp only [Segment.blanks, List.mem_cons, List.not_mem_nil, or_false] at hmem
    rcases hmem with rfl | rfl | rfl | rfl <;> cases hb

/-- After a letter a token goes on with letters and digits. -/
theorem length_le_of_letter (h : Shape b t) (hb : Text.isLetter b = true) (ht : t <+: rest) :
    t.length ≤ (rest.takeWhile Segment.isNamePart).length := by
  cases h with
  | sign p _ _ hl => rw [hl] at hb; cases hb
  | string => cases hb
  | whole hd | decimal hd => rw [Text.isDigit_of_isLetter hb] at hd; cases hd
  | name _ h => exact length_le_takeWhile h ht

/-- After a digit a token goes on as a numeral does. -/
theorem length_lt_of_digit (h : Shape b t) (hb : Text.isDigit b = true) (ht : t <+: rest) :
    t.length < (Segment.numeral b rest).text.length := by
  cases h with
  | sign p _ hd => rw [hd] at hb; cases hb
  | string => cases hb
  | whole _ h =>
    exact Nat.lt_of_lt_of_le (Nat.lt_succ_of_le (length_le_takeWhile h ht))
      (Segment.length_whole_le b rest)
  | @decimal _ digits decimals _ h hne h' =>
    obtain ⟨more, rfl⟩ := ht
    have hpoint : (utf8 ".").length = 1 := rfl
    rw [List.append_assoc, List.cons_append, Segment.numeral_of_decimals more h hne h']
    simp only [Segment.text, List.length_append, List.length_cons, hpoint]
    omega
  | name hl => rw [Text.isDigit_of_isLetter hl] at hb; cases hb

/-- After a quote a token goes on up to the next one. -/
theorem eq_of_quote (h : Shape 0x22 t) (ht : t <+: rest) :
    t = rest.takeWhile (· != 0x22) ++ [0x22] := by
  cases h with
  | sign p _ _ _ hq => exact absurd rfl hq
  | @string body h =>
    obtain ⟨more, rfl⟩ := ht
    have hin : ∀ c ∈ body, (c != 0x22) = true := fun c hc => bne_iff_ne.mpr (h c hc)
    rw [List.append_assoc, List.takeWhile_append_of_pos hin, List.singleton_append,
      List.takeWhile_cons_of_neg (by decide), List.append_nil]
  | whole hb | decimal hb | name hb => cases hb

/-- Any other token is a sign. -/
theorem exists_sign (h : Shape b t) (hd : Text.isDigit b = false) (hl : Text.isLetter b = false)
    (hq : b ≠ 0x22) : ∃ p : Punctuator, p.spelling = b :: t := by
  cases h with
  | sign p hp => exact ⟨p, hp⟩
  | string => exact absurd rfl hq
  | whole hb | decimal hb => rw [hd] at hb; cases hb
  | name hb => rw [hl] at hb; cases hb

end Shape

namespace Segment

/-- The rule of blanks is the first. -/
theorem leads_blank {b : UInt8} (hb : b ∈ blanks) (rest : Text) : Leads (b :: rest) (blank b) :=
  ⟨.blank hb rest, fun _ _ => Nat.zero_le _⟩

/-- A source by whose first bytes no rule before that of tokens applies. -/
structure Plain (source : Text) : Prop where
  /-- It does not start with a blank. -/
  not_blank : ∀ b ∈ source.head?, b ∉ blanks
  /-- It does not start with a comment. -/
  not_comment : ¬ utf8 "//" <+: source

/-- Only tokens and bad segments start such a source. -/
theorem Plain.two_le_order {source : Text} (h : Plain source) {s : Segment}
    (hs : Matches source s) : 2 ≤ s.order := by
  cases hs with
  | blank hb => exact absurd hb (h.not_blank _ rfl)
  | comment =>
    refine absurd ?_ h.not_comment
    rw [List.append_assoc]
    exact List.prefix_append _ _
  | token => exact Nat.le_refl 2
  | unterminated | unexpected => simp only [order, Nat.reduceLeDiff]

/-- Two slashes lead a comment up to the end of the line. -/
theorem leads_comment (more : Text) :
    Leads (utf8 "//" ++ more) (comment (more.takeWhile (· != Text.lineFeed))) := by
  refine ⟨?_, ?_⟩
  · have hbody : ∀ b ∈ more.takeWhile (· != Text.lineFeed), b ≠ Text.lineFeed := by
      intro b hb
      exact bne_iff_ne.mp (List.all_eq_true.mp List.all_takeWhile b hb)
    have hrest : ∀ b ∈ (more.dropWhile (· != Text.lineFeed)).head?, b = Text.lineFeed := by
      intro b hb
      have hhead := List.head?_dropWhile_not (· != Text.lineFeed) more
      rw [Option.mem_def] at hb
      simpa only [hb, bne_eq_false_iff_eq] using hhead
    have hmatches := Matches.comment hbody hrest
    rwa [List.append_assoc, List.takeWhile_append_dropWhile] at hmatches
  · intro s hs
    generalize hsource : utf8 "//" ++ more = source at hs
    cases hs with
    | blank hb =>
      obtain ⟨rfl, -⟩ := List.cons.inj hsource
      exact absurd hb (by decide)
    | comment => exact Nat.le_refl 1
    | token | unterminated | unexpected => simp only [order, Nat.reduceLeDiff]

/-- The longest text of a token leads. -/
theorem leads_token {kind : Kind} {b : UInt8} {t rest : Text} {literal : Option Value}
    (h : Pattern kind (b :: t) literal) (hcomment : ¬ utf8 "//" <+: b :: (t ++ rest))
    (hlongest : ∀ t', Shape b t' → t' <+: t ++ rest → t'.length ≤ t.length) :
    Leads (b :: (t ++ rest)) (token kind (b :: t) literal) := by
  have hplain : Plain (b :: (t ++ rest)) := by
    refine ⟨?_, hcomment⟩
    intro b' hb'
    obtain rfl := Option.some.inj hb'
    obtain ⟨b', t', heq, hshape⟩ := h.shape
    obtain ⟨rfl, rfl⟩ := List.cons.inj heq
    exact hshape.not_mem_blanks
  refine ⟨.token h ?_, fun s hs => hplain.two_le_order hs⟩
  intro kind' lexeme' literal' h' hstart
  obtain ⟨b', t', rfl, hshape⟩ := h'.shape
  obtain ⟨rfl, ht⟩ := List.cons_prefix_cons.mp hstart
  exact Nat.succ_le_succ (hlongest t' hshape ht)

/-- A quote that none follows leads to the end of the source. -/
theorem leads_unterminated {body : Text} (h : ∀ b ∈ body, b ≠ 0x22) :
    Leads (0x22 :: body) (unterminated body) := by
  refine ⟨.unterminated body, ?_⟩
  intro s hs
  generalize hsource : 0x22 :: body = source at hs
  cases hs with
  | blank hb =>
    obtain ⟨rfl, -⟩ := List.cons.inj hsource
    exact absurd hb (by decide)
  | comment => cases (List.cons.inj hsource).1
  | token hp =>
    obtain ⟨b, t, rfl, hshape⟩ := hp.shape
    obtain ⟨rfl, rfl⟩ := List.cons.inj hsource
    have hquote := hshape.eq_of_quote List.prefix_rfl
    refine absurd rfl (h 0x22 (List.mem_append_left _ ?_))
    rw [hquote]
    exact List.mem_append_right _ List.mem_cons_self
  | unterminated => exact Nat.le_refl 3
  | unexpected => simp only [order, Nat.reduceLeDiff]

/-- A byte that starts nothing else leads a character that is unexpected. -/
theorem leads_unexpected {b : UInt8} (hblank : b ∉ blanks)
    (hsign : ∀ (p : Punctuator) (t : Text), p.spelling ≠ b :: t) (hdigit : Text.isDigit b = false)
    (hletter : Text.isLetter b = false) (hquote : b ≠ 0x22) (rest : Text) :
    Leads (b :: rest) (unexpected (Rune.first b rest)) := by
  refine ⟨.unexpected ((Rune.starts_iff b rest _).mpr rfl), ?_⟩
  intro s hs
  generalize hsource : b :: rest = source at hs
  cases hs with
  | blank hb =>
    obtain ⟨rfl, -⟩ := List.cons.inj hsource
    exact absurd hb hblank
  | comment =>
    obtain ⟨rfl, -⟩ := List.cons.inj hsource
    exact absurd rfl (hsign .slash [])
  | token hp =>
    obtain ⟨b', t, rfl, hshape⟩ := hp.shape
    obtain ⟨rfl, -⟩ := List.cons.inj hsource
    obtain ⟨p, hp⟩ := hshape.exists_sign hdigit hletter hquote
    exact absurd hp (hsign p t)
  | unterminated =>
    obtain ⟨rfl, -⟩ := List.cons.inj hsource
    exact absurd rfl hquote
  | unexpected => exact Nat.le_refl 4

/-- The first byte of a sign starts no other kind of token. -/
theorem exists_spelling (p : Punctuator) :
    ∃ b t, p.spelling = b :: t ∧ Text.isDigit b = false ∧ Text.isLetter b = false ∧ b ≠ 0x22 := by
  cases p <;> exact ⟨_, _, rfl, by decide, by decide, by decide⟩

/-- Only a slash with a slash after it starts a comment. -/
theorem not_comment_of_sign {p : Punctuator} {rest : Text}
    (h : p = .slash → rest.head? ≠ some 0x2F) : ¬ utf8 "//" <+: p.spelling ++ rest := by
  rintro ⟨more, hmore⟩
  cases p with
  | slash =>
    have hrest : rest = 0x2F :: more := (List.cons.inj hmore).2.symm
    exact h rfl (by rw [hrest]; rfl)
  | _ => cases (List.cons.inj hmore).1

/-- A sign that no longer sign extends leads. -/
theorem leads_sign {p : Punctuator} {rest : Text} (hcomment : p = .slash → rest.head? ≠ some 0x2F)
    (hlongest : ∀ q : Punctuator, q.spelling <+: p.spelling ++ rest →
      q.spelling.length ≤ p.spelling.length) : Leads (p.spelling ++ rest) (sign p) := by
  have hplain := not_comment_of_sign hcomment
  have hpattern := Pattern.sign p
  obtain ⟨b, t, hspelling, hd, hl, hquote⟩ := exists_spelling p
  rw [sign]
  rw [hspelling] at hpattern hplain hlongest ⊢
  refine leads_token hpattern hplain fun t' hshape ht' => ?_
  obtain ⟨q, hq⟩ := hshape.exists_sign hd hl hquote
  have hle := hlongest q (by rw [hq]; exact List.cons_prefix_cons.mpr ⟨rfl, ht'⟩)
  rw [hq] at hle
  exact Nat.le_of_succ_le_succ hle

/-- A sign leads if no sign with the same first byte is longer. -/
theorem leads_sign_of_head (p : Punctuator) (rest : Text)
    (hcomment : p = .slash → rest.head? ≠ some 0x2F)
    (h : ∀ q ∈ Punctuator.all, q.spelling.head? = p.spelling.head? →
      q.spelling.length ≤ p.spelling.length) : Leads (p.spelling ++ rest) (sign p) := by
  refine leads_sign hcomment fun q hq => h q (Punctuator.mem_all q) ?_
  obtain ⟨b, t, hp, -⟩ := exists_spelling p
  obtain ⟨b', t', hq', -⟩ := exists_spelling q
  rw [hp, hq'] at hq ⊢
  obtain ⟨rfl, -⟩ := List.cons_prefix_cons.mp hq
  rfl

/-- A sign of one character leads if no equals sign follows. -/
theorem leads_sign_of_rest (p : Punctuator) {rest : Text} (hp : p.spelling.length = 1)
    (hslash : p ≠ .slash) (h : rest.head? ≠ some 0x3D) : Leads (p.spelling ++ rest) (sign p) := by
  refine leads_sign (fun heq => absurd heq hslash) fun q hq => ?_
  have hlong : q.spelling.length ≤ 1 ∨ ∃ b, q.spelling = [b, 0x3D] := by
    cases q with
    | bangEqual | equalEqual | greaterEqual | lessEqual => exact .inr ⟨_, rfl⟩
    | _ => exact .inl (Nat.le_refl 1)
  rcases hlong with hlong | ⟨b, hlong⟩
  · rwa [hp]
  · obtain ⟨c, hc⟩ := List.length_eq_one_iff.mp hp
    rw [hlong, hc] at hq
    obtain ⟨-, hq⟩ := List.cons_prefix_cons.mp hq
    obtain ⟨more, hmore⟩ := hq
    have hrest : rest = 0x3D :: more := hmore.symm
    exact absurd (by rw [hrest]; rfl) h

/-- A sign that takes a following equals sign leads with it or without. -/
theorem leads_signOrEqual (short long : Punctuator) (rest : Text)
    (hlong : long.spelling = short.spelling ++ [0x3D]) (hshort : short.spelling.length = 1)
    (hslash : short ≠ .slash) :
    Leads (short.spelling ++ rest) (signOrEqual short long rest) := by
  unfold signOrEqual
  split
  · next more =>
    have hle : ∀ q ∈ Punctuator.all, q.spelling.length ≤ 2 := by decide
    have hlength : long.spelling.length = 2 := by rw [hlong, List.length_append, hshort]; rfl
    have hne : long ≠ .slash := fun heq => by rw [heq] at hlength; cases hlength
    have hleads := leads_sign_of_head long more (fun heq => absurd heq hne)
      fun q hq _ => hlength ▸ hle q hq
    rwa [hlong, List.append_assoc, List.singleton_append] at hleads
  · next hrest =>
    refine leads_sign_of_rest short hshort hslash fun hhead => ?_
    obtain ⟨more, rfl⟩ := List.head?_eq_some_iff.mp hhead
    exact hrest more rfl

/-- A quote leads a string, or all that is left if no quote follows. -/
theorem leads_quoted (rest : Text) : Leads (0x22 :: rest) (quoted rest) := by
  have hbody : ∀ b ∈ rest.takeWhile (· != 0x22), b ≠ 0x22 := fun b hb =>
    bne_iff_ne.mp (List.all_eq_true.mp List.all_takeWhile b hb)
  have hrest : rest = rest.takeWhile (· != 0x22) ++ rest.dropWhile (· != 0x22) :=
    List.takeWhile_append_dropWhile.symm
  have hhead := List.head?_dropWhile_not (· != 0x22) rest
  simp only [quoted]
  split
  · next hdrop =>
    rw [hdrop, List.append_nil] at hrest
    rw [← hrest] at hbody ⊢
    exact leads_unterminated hbody
  · next hdrop =>
    obtain ⟨b, more, hmore⟩ := List.exists_cons_of_ne_nil hdrop
    rw [hmore] at hhead hrest
    obtain rfl : b = 0x22 := bne_eq_false_iff_eq.mp hhead
    have hlongest : ∀ t, Shape 0x22 t → t <+: rest →
        t.length ≤ (rest.takeWhile (· != 0x22) ++ [0x22]).length :=
      fun t hshape ht => Nat.le_of_eq (congrArg List.length (hshape.eq_of_quote ht))
    generalize rest.takeWhile (· != 0x22) = body at *
    subst hrest
    have hpattern : Pattern .string (0x22 :: (body ++ [0x22])) (some (.string body)) :=
      .string hbody
    rw [List.append_cons] at hlongest ⊢
    exact leads_token hpattern (fun ⟨_, h⟩ => nomatch (List.cons.inj h).1) hlongest

/-- A digit leads a numeral. -/
theorem leads_numeral {digit : UInt8} (h : Text.isDigit digit = true) (rest : Text) :
    Leads (digit :: rest) (numeral digit rest) := by
  obtain ⟨t, literal, more, hnumeral, hpattern, hrest⟩ := exists_numeral h rest
  have hcomment : ¬ utf8 "//" <+: digit :: rest := by
    rintro ⟨more, hmore⟩
    obtain ⟨rfl, -⟩ := List.cons.inj hmore
    cases h
  have hlongest : ∀ t', Shape digit t' → t' <+: rest → t'.length ≤ t.length := by
    intro t' hshape ht'
    have hlt := hshape.length_lt_of_digit h ht'
    rw [hnumeral] at hlt
    exact Nat.le_of_lt_succ hlt
  rw [hnumeral]
  subst hrest
  exact leads_token hpattern hcomment hlongest

/-- A letter leads a name. -/
theorem leads_name {letter : UInt8} (h : Text.isLetter letter = true) (rest : Text) :
    Leads (letter :: rest) (name letter rest) := by
  have hpart : ∀ b ∈ rest.takeWhile isNamePart, Text.isLetter b = true ∨ Text.isDigit b = true :=
    fun b hb => Bool.or_eq_true_iff.mp (List.all_eq_true.mp List.all_takeWhile b hb)
  have hpattern := pattern_name h hpart
  have hcomment : ¬ utf8 "//" <+: letter :: rest := by
    rintro ⟨more, hmore⟩
    obtain ⟨rfl, -⟩ := List.cons.inj hmore
    cases h
  have hlongest : ∀ t, Shape letter t → t <+: rest →
      t.length ≤ (rest.takeWhile isNamePart).length :=
    fun t hshape ht => hshape.length_le_of_letter h ht
  have hrest : rest = rest.takeWhile isNamePart ++ rest.dropWhile isNamePart :=
    List.takeWhile_append_dropWhile.symm
  simp only [name]
  generalize rest.takeWhile isNamePart = t at *
  generalize rest.dropWhile isNamePart = more at *
  subst hrest
  exact leads_token hpattern hcomment hlongest

/-- A source starts with its first segment, by the first rule that applies. -/
theorem leads_first (b : UInt8) (rest : Text) : Leads (b :: rest) (first b rest) := by
  unfold first
  split
  · exact leads_blank (by decide) rest
  · exact leads_blank (by decide) rest
  · exact leads_blank (by decide) rest
  · exact leads_blank (by decide) rest
  · exact leads_sign_of_head .leftParen rest nofun (by decide)
  · exact leads_sign_of_head .rightParen rest nofun (by decide)
  · exact leads_sign_of_head .leftBrace rest nofun (by decide)
  · exact leads_sign_of_head .rightBrace rest nofun (by decide)
  · exact leads_sign_of_head .comma rest nofun (by decide)
  · exact leads_sign_of_head .dot rest nofun (by decide)
  · exact leads_sign_of_head .minus rest nofun (by decide)
  · exact leads_sign_of_head .plus rest nofun (by decide)
  · exact leads_sign_of_head .semicolon rest nofun (by decide)
  · exact leads_sign_of_head .star rest nofun (by decide)
  · split
    · exact leads_comment _
    · next h =>
      refine leads_sign_of_head .slash rest (fun _ hhead => ?_) (by decide)
      obtain ⟨more, rfl⟩ := List.head?_eq_some_iff.mp hhead
      exact h more rfl
  · exact leads_signOrEqual .bang .bangEqual rest rfl rfl nofun
  · exact leads_signOrEqual .equal .equalEqual rest rfl rfl nofun
  · exact leads_signOrEqual .less .lessEqual rest rfl rfl nofun
  · exact leads_signOrEqual .greater .greaterEqual rest rfl rfl nofun
  · exact leads_quoted rest
  · split
    · next h => exact leads_numeral h rest
    · next hdigit =>
      split
      · next h => exact leads_name h rest
      · next hletter =>
        refine leads_unexpected ?_ ?_ (eq_false_of_ne_true hdigit) (eq_false_of_ne_true hletter)
          ?_ rest
        · simp only [blanks, List.mem_cons, List.not_mem_nil, or_false, not_or]
          exact ⟨‹_›, ‹_›, ‹_›, ‹_›⟩
        · intro p t hp
          cases p <;> obtain ⟨rfl, -⟩ := List.cons.inj hp <;> contradiction
        · assumption

/-- The segment that leads a source has bytes, and the source starts with them. -/
theorem Matches.exists_text {source : Text} {s : Segment} (h : Matches source s) :
    s.text ≠ [] ∧ s.text <+: source := by
  cases h with
  | blank hb rest => exact ⟨List.cons_ne_nil _ _, List.prefix_append [_] rest⟩
  | comment => exact ⟨nofun, List.prefix_append _ _⟩
  | token hp =>
    obtain ⟨b, t, rfl, -⟩ := hp.shape
    exact ⟨List.cons_ne_nil _ _, List.prefix_append _ _⟩
  | unterminated body => exact ⟨nofun, List.prefix_rfl⟩
  | unexpected hs => exact hs.exists_bytes

/-- A comment goes on as far as its line. -/
theorem comment_body_eq {body rest : Text} (hbody : ∀ b ∈ body, b ≠ Text.lineFeed)
    (hrest : ∀ b ∈ rest.head?, b = Text.lineFeed) :
    (body ++ rest).takeWhile (· != Text.lineFeed) = body := by
  have hin : ∀ b ∈ body, (b != Text.lineFeed) = true := fun b hb => bne_iff_ne.mpr (hbody b hb)
  rw [List.takeWhile_append_of_pos hin]
  cases rest with
  | nil => rw [List.takeWhile_nil, List.append_nil]
  | cons b more =>
    rw [hrest b rfl, List.takeWhile_cons_of_neg (by decide), List.append_nil]

/-- Segments of one rule that start the same source are the same. -/
theorem Matches.unique {source : Text} {s s' : Segment} (h : Matches source s)
    (h' : Matches source s') (horder : s.order = s'.order) : s = s' := by
  cases h with
  | @blank b hb rest =>
    generalize hsource : b :: rest = source at h'
    cases h' with
    | blank => rw [(List.cons.inj hsource).1]
    | _ => cases horder
  | @comment body rest hbody hrest =>
    generalize hsource : utf8 "//" ++ body ++ rest = source at h'
    cases h' with
    | comment hbody' hrest' =>
      rw [List.append_assoc, List.append_assoc, List.append_cancel_left_eq] at hsource
      rw [← comment_body_eq hbody hrest, hsource, comment_body_eq hbody' hrest']
    | _ => cases horder
  | @token kind lexeme rest literal hp hlongest =>
    generalize hsource : lexeme ++ rest = source at h'
    cases h' with
    | @token kind' lexeme' rest' literal' hp' hlongest' =>
      have hle := hlongest _ _ _ hp' (hsource ▸ List.prefix_append lexeme' rest')
      have hle' := hlongest' _ _ _ hp (hsource ▸ List.prefix_append lexeme rest)
      obtain ⟨rfl, -⟩ := List.append_inj hsource (Nat.le_antisymm hle' hle)
      obtain ⟨rfl, rfl⟩ := hp.unique hp'
      rfl
    | _ => cases horder
  | unterminated body =>
    generalize hsource : utf8 "\"" ++ body = source at h'
    cases h' with
    | unterminated body' => rw [List.append_cancel_left hsource]
    | _ => cases horder
  | unexpected hs =>
    cases h' with
    | unexpected hs' =>
      obtain ⟨hne, hstart⟩ := hs.exists_bytes
      obtain ⟨b, rest, rfl⟩ := List.exists_cons_of_ne_nil (hstart.ne_nil hne)
      rw [(Rune.starts_iff b rest _).mp hs, (Rune.starts_iff b rest _).mp hs']
    | _ => cases horder

/-- A source is led by one segment only. -/
theorem Leads.unique {source : Text} {s s' : Segment} (h : Leads source s)
    (h' : Leads source s') : s = s' :=
  h.applies.unique h'.applies
    (Nat.le_antisymm (h.first s' h'.applies) (h'.first s h.applies))

/-- A source that a segment leads is split into it and what is left. -/
theorem split_of_leads {s : Segment} {rest : Text} (h : Leads (s.text ++ rest) s) :
    split (s.text ++ rest) = s :: split rest := by
  obtain ⟨b, t, ht⟩ := List.exists_cons_of_ne_nil h.applies.exists_text.1
  have hfirst : first b (t ++ rest) = s := by
    rw [ht] at h
    exact (leads_first b (t ++ rest)).unique h
  rw [ht, List.cons_append, split_cons, hfirst, ht, List.length_cons, Nat.add_sub_cancel,
    List.drop_left]

/-- What is left of a source behind its first segment. -/
theorem exists_rest (b : UInt8) (rest : Text) :
    ∃ more, b :: rest = (first b rest).text ++ more ∧ more.length < (b :: rest).length := by
  obtain ⟨hne, more, hmore⟩ := (leads_first b rest).applies.exists_text
  refine ⟨more, hmore.symm, ?_⟩
  have hpos := List.length_pos_iff.mpr hne
  rw [← hmore, List.length_append]
  omega

/-- Every source falls into the segments into which it is split. -/
theorem splits_split (source : Text) : Splits source (split source) := by
  induction hn : source.length using Nat.strongRecOn generalizing source with
  | ind n ih =>
    cases source with
    | nil => exact .nil
    | cons b rest =>
      obtain ⟨more, hmore, hlt⟩ := exists_rest b rest
      have hleads := leads_first b rest
      rw [hmore] at hleads ⊢
      rw [split_of_leads hleads]
      exact .cons hleads (ih more.length (hn ▸ hlt) more rfl)

/-- The segments of a source joined together are the source. -/
theorem Splits.flatMap_text {source : Text} {segments : List Segment}
    (h : Splits source segments) : segments.flatMap text = source := by
  induction h with
  | nil => rfl
  | cons _ _ ih => rw [List.flatMap_cons, ih]

/-- Exactly the bad segments are errors. -/
theorem error?_eq_none_iff (line : Int) (s : Segment) : s.error? line = none ↔ ¬ s.Bad := by
  cases s with
  | blank | comment | token => exact ⟨fun _ => nofun, fun _ => rfl⟩
  | unterminated body => exact ⟨nofun, fun h => absurd (.unterminated body) h⟩
  | unexpected rune => exact ⟨nofun, fun h => absurd (.unexpected rune) h⟩

/-- Numbering adds lines to segments and changes nothing else. -/
theorem map_snd_numbered (line : Int) (segments : List Segment) :
    (numbered line segments).map Prod.snd = segments := by
  induction segments generalizing line with
  | nil => rfl
  | cons s rest ih => rw [numbered, List.map_cons, ih]

/-- A source has no errors exactly if no segment is bad. -/
theorem lexicalErrors_eq_nil_iff (source : Text) :
    lexicalErrors source = [] ↔ ∀ s ∈ split source, ¬ s.Bad := by
  rw [lexicalErrors, List.filterMap_eq_nil_iff, ← map_snd_numbered 1 (split source)]
  simp only [error?_eq_none_iff, numberedSegments, List.forall_mem_map]

end Segment

/-- A source is scanned exactly if it has no errors, into its tokens and an end token. -/
theorem scan_eq_ok_iff {source : Text} {tokens : List Token} :
    scan source = .ok tokens ↔ lexicalErrors source = [] ∧
      tokens = sourceTokens source ++ [Token.eof (lastLine source)] := by
  unfold scan
  split
  · next h => simp only [h, Except.ok.injEq, true_and, eq_comm]
  · next h => exact ⟨nofun, fun ⟨hnil, _⟩ => absurd hnil h⟩

end Lox
