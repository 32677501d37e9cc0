import Lox.Text.Rune

/-!
# Decoding of characters

The rune at the start of a text is the character whose UTF-8 encoding the text starts with,
and a single byte if it starts with no encoding at all.
-/

namespace Lox.Rune

/-- The code points that have an encoding: all up to the last but the surrogates. -/
def IsScalarValue (code : Nat) : Prop := code < 0xD800 ∨ (0xE000 ≤ code ∧ code ≤ 0x10FFFF)

/-- The rune at the start of a text. -/
inductive Starts : Text → Rune → Prop
  /-- A text that starts with the encoding of a character. -/
  | scalar {code : Nat} (hc : IsScalarValue code) (rest : Text) :
      Starts (encode code ++ rest) (.scalar code (encode code))
  /-- A text that starts with no encoding. -/
  | stray {b : UInt8} {rest : Text} (h : ∀ code, IsScalarValue code → ¬ encode code <+: b :: rest) :
      Starts (b :: rest) (.stray b)

/-- A byte is known by its number. -/
theorem toUInt8_eq {n : Nat} {b : UInt8} (h : n = b.toNat) : n.toUInt8 = b := by
  rw [h]
  exact UInt8.ofNat_toNat

/-- A continuation byte by its number. -/
theorem isContinuation_iff (b : UInt8) :
    isContinuation b = true ↔ 0x80 ≤ b.toNat ∧ b.toNat ≤ 0xBF := by
  simp only [isContinuation, Bool.and_eq_true, decide_eq_true_eq, UInt8.le_iff_toNat_le,
    UInt8.reduceToNat]

/-- The second byte of three by its number. -/
theorem secondOfThree_iff (lead b : UInt8) :
    secondOfThree lead b = true ↔ 0x80 ≤ b.toNat ∧ b.toNat ≤ 0xBF ∧
      (lead.toNat = 0xE0 → 0xA0 ≤ b.toNat) ∧ (lead.toNat = 0xED → b.toNat ≤ 0x9F) := by
  simp only [secondOfThree, beq_iff_eq, ← UInt8.toNat_inj, UInt8.reduceToNat]
  split
  · simp only [Bool.and_eq_true, decide_eq_true_eq, UInt8.le_iff_toNat_le, UInt8.reduceToNat]
    omega
  · split
    · simp only [Bool.and_eq_true, decide_eq_true_eq, UInt8.le_iff_toNat_le, UInt8.reduceToNat]
      omega
    · rw [isContinuation_iff]
      omega

/-- The second byte of four by its number. -/
theorem secondOfFour_iff (lead b : UInt8) :
    secondOfFour lead b = true ↔ 0x80 ≤ b.toNat ∧ b.toNat ≤ 0xBF ∧
      (lead.toNat = 0xF0 → 0x90 ≤ b.toNat) ∧ (lead.toNat = 0xF4 → b.toNat ≤ 0x8F) := by
  simp only [secondOfFour, beq_iff_eq, ← UInt8.toNat_inj, UInt8.reduceToNat]
  split
  · simp only [Bool.and_eq_true, decide_eq_true_eq, UInt8.le_iff_toNat_le, UInt8.reduceToNat]
    omega
  · split
    · simp only [Bool.and_eq_true, decide_eq_true_eq, UInt8.le_iff_toNat_le, UInt8.reduceToNat]
      omega
    · rw [isContinuation_iff]
      omega

/-- A byte below the first lead byte is the encoding of its own number. -/
theorem encode_one {b : UInt8} (hb : b.toNat < 0x80) :
    IsScalarValue b.toNat ∧ encode b.toNat = [b] := by
  refine ⟨.inl (by omega), ?_⟩
  rw [encode, if_pos hb, toUInt8_eq rfl]

/-- A two-byte sequence is the encoding of its code point. -/
theorem encode_two {lead b : UInt8} (hlead : 0xC2 ≤ lead.toNat ∧ lead.toNat ≤ 0xDF)
    (hb : isContinuation b = true) :
    IsScalarValue (lead.toNat % 0x20 * 0x40 + payload b) ∧
      encode (lead.toNat % 0x20 * 0x40 + payload b) = [lead, b] := by
  rw [isContinuation_iff] at hb
  simp only [payload]
  generalize hcode : lead.toNat % 0x20 * 0x40 + b.toNat % 0x40 = code
  refine ⟨.inl (by omega), ?_⟩
  rw [encode, if_neg (by omega), if_pos (by omega), toUInt8_eq (b := lead) (by omega),
    toUInt8_eq (b := b) (by omega)]

/-- A three-byte sequence is the encoding of its code point. -/
theorem encode_three {lead b c : UInt8} (hlead : 0xE0 ≤ lead.toNat ∧ lead.toNat ≤ 0xEF)
    (hb : secondOfThree lead b = true) (hc : isContinuation c = true) :
    IsScalarValue (lead.toNat % 0x10 * 0x1000 + payload b * 0x40 + payload c) ∧
      encode (lead.toNat % 0x10 * 0x1000 + payload b * 0x40 + payload c) = [lead, b, c] := by
  rw [secondOfThree_iff] at hb
  rw [isContinuation_iff] at hc
  simp only [payload]
  generalize hcode :
    lead.toNat % 0x10 * 0x1000 + b.toNat % 0x40 * 0x40 + c.toNat % 0x40 = code
  have hsurrogate : ¬ (0xD800 ≤ code ∧ code ≤ 0xDFFF) := by omega
  have hbounds : 0x800 ≤ code ∧ code < 0x10000 := by omega
  refine ⟨?_, ?_⟩
  · simp only [IsScalarValue]
    omega
  · rw [encode, if_neg (by omega), if_neg (by omega), if_neg, if_pos (by omega),
      toUInt8_eq (b := lead) (by omega), toUInt8_eq (b := b) (by omega),
      toUInt8_eq (b := c) (by omega)]
    simp only [Bool.or_eq_true, Bool.and_eq_true, decide_eq_true_eq]
    omega

/-- A four-byte sequence is the encoding of its code point. -/
theorem encode_four {lead b c d : UInt8} (hlead : 0xF0 ≤ lead.toNat ∧ lead.toNat ≤ 0xF4)
    (hb : secondOfFour lead b = true) (hc : isContinuation c = true)
    (hd : isContinuation d = true) :
    IsScalarValue
        (lead.toNat % 0x08 * 0x40000 + payload b * 0x1000 + payload c * 0x40 + payload d) ∧
      encode (lead.toNat % 0x08 * 0x40000 + payload b * 0x1000 + payload c * 0x40 + payload d) =
        [lead, b, c, d] := by
  rw [secondOfFour_iff] at hb
  rw [isContinuation_iff] at hc hd
  simp only [payload]
  generalize hcode : lead.toNat % 0x08 * 0x40000 + b.toNat % 0x40 * 0x1000 +
    c.toNat % 0x40 * 0x40 + d.toNat % 0x40 = code
  have hbounds : 0x10000 ≤ code ∧ code ≤ 0x10FFFF := by omega
  refine ⟨.inr (by omega), ?_⟩
  rw [encode, if_neg (by omega), if_neg (by omega), if_neg, if_neg (by omega),
    toUInt8_eq (b := lead) (by omega), toUInt8_eq (b := b) (by omega),
    toUInt8_eq (b := c) (by omega), toUInt8_eq (b := d) (by omega)]
  simp only [Bool.or_eq_true, Bool.and_eq_true, decide_eq_true_eq]
  omega

/-- A character found at the start of a text has its encoding there. -/
theorem encode_of_first {lead : UInt8} {rest : Text} {code : Nat} {bytes : Text}
    (h : first lead rest = .scalar code bytes) :
    IsScalarValue code ∧ encode code = bytes ∧ bytes <+: lead :: rest := by
  unfold first at h
  simp only [Bool.and_eq_true, decide_eq_true_eq, UInt8.le_iff_toNat_le, UInt8.lt_iff_toNat_lt,
    UInt8.reduceToNat] at h
  split at h
  · next hlead =>
    cases h
    exact ⟨(encode_one hlead).1, (encode_one hlead).2, List.prefix_append [lead] rest⟩
  split at h
  · next hlead =>
    split at h
    · next b more =>
      split at h
      · next hb =>
        cases h
        exact ⟨(encode_two hlead hb).1, (encode_two hlead hb).2, List.prefix_append [lead, b] more⟩
      · cases h
    · cases h
  split at h
  · next hlead =>
    split at h
    · next b c more =>
      split at h
      · next hbc =>
        cases h
        obtain ⟨hvalue, hencode⟩ := encode_three hlead hbc.1 hbc.2
        exact ⟨hvalue, hencode, List.prefix_append [lead, b, c] more⟩
      · cases h
    · cases h
  split at h
  · next hlead =>
    split at h
    · next b c d more =>
      split at h
      · next hbcd =>
        cases h
        obtain ⟨hvalue, hencode⟩ := encode_four hlead hbcd.1.1 hbcd.1.2 hbcd.2
        exact ⟨hvalue, hencode, List.prefix_append [lead, b, c, d] more⟩
      · cases h
    · cases h
  · cases h

/-- A stray byte is the first of the text. -/
theorem eq_of_first_stray {lead b : UInt8} {rest : Text} (h : first lead rest = .stray b) :
    b = lead := by
  unfold first at h
  repeat' split at h
  all_goals cases h
  all_goals rfl

/-- The number of a byte that was built from a number. -/
theorem toNat_toUInt8 {n : Nat} (h : n < 0x100) : n.toUInt8.toNat = n := by
  rw [Nat.toUInt8, UInt8.toNat_ofNat', Nat.mod_eq_of_lt h]

section First

variable {lead b c d : UInt8} (more : Text)

/-- A byte below the first lead byte is a character. -/
theorem first_one (hlead : lead.toNat < 0x80) : first lead more = .scalar lead.toNat [lead] := by
  unfold first
  rw [if_pos (UInt8.lt_iff_toNat_lt.mpr hlead)]

/-- A lead byte of two with its continuation is a character. -/
theorem first_two (hlead : 0xC2 ≤ lead.toNat ∧ lead.toNat ≤ 0xDF) (hb : isContinuation b = true) :
    first lead (b :: more) = .scalar (lead.toNat % 0x20 * 0x40 + payload b) [lead, b] := by
  simp only [first, Bool.and_eq_true, decide_eq_true_eq, UInt8.le_iff_toNat_le,
    UInt8.lt_iff_toNat_lt, UInt8.reduceToNat]
  rw [if_neg (by omega), if_pos hlead, if_pos hb]

/-- A lead byte of three with its continuations is a character. -/
theorem first_three (hlead : 0xE0 ≤ lead.toNat ∧ lead.toNat ≤ 0xEF)
    (hb : secondOfThree lead b = true) (hc : isContinuation c = true) :
    first lead (b :: c :: more) =
      .scalar (lead.toNat % 0x10 * 0x1000 + payload b * 0x40 + payload c) [lead, b, c] := by
  simp only [first, Bool.and_eq_true, decide_eq_true_eq, UInt8.le_iff_toNat_le,
    UInt8.lt_iff_toNat_lt, UInt8.reduceToNat]
  rw [if_neg (by omega), if_neg (by omega), if_pos hlead, if_pos ⟨hb, hc⟩]

/-- A lead byte of four with its continuations is a character. -/
theorem first_four (hlead : 0xF0 ≤ lead.toNat ∧ lead.toNat ≤ 0xF4)
    (hb : secondOfFour lead b = true) (hc : isContinuation c = true)
    (hd : isContinuation d = true) :
    first lead (b :: c :: d :: more) =
      .scalar (lead.toNat % 0x08 * 0x40000 + payload b * 0x1000 + payload c * 0x40 + payload d)
        [lead, b, c, d] := by
  simp only [first, Bool.and_eq_true, decide_eq_true_eq, UInt8.le_iff_toNat_le,
    UInt8.lt_iff_toNat_lt, UInt8.reduceToNat]
  rw [if_neg (by omega), if_neg (by omega), if_neg (by omega), if_pos hlead, if_pos ⟨⟨hb, hc⟩, hd⟩]

end First

/-- A text that starts with the encoding of a character has that character at its start. -/
theorem first_of_encode {code : Nat} (hcode : IsScalarValue code) {lead : UInt8}
    {rest more : Text} (h : lead :: rest = encode code ++ more) :
    first lead rest = .scalar code (encode code) := by
  simp only [IsScalarValue] at hcode
  by_cases hone : code < 0x80
  · have hencode : encode code = [code.toUInt8] := by rw [encode, if_pos hone]
    have hlead := toNat_toUInt8 (n := code) (by omega)
    rw [hencode] at h ⊢
    obtain ⟨rfl, rfl⟩ := List.cons.inj h
    rw [first_one _ (by omega), hlead]
  by_cases htwo : code < 0x800
  · have hencode : encode code =
        [(0xC0 + code / 0x40).toUInt8, (0x80 + code % 0x40).toUInt8] := by
      rw [encode, if_neg hone, if_pos htwo]
    have hlead := toNat_toUInt8 (n := 0xC0 + code / 0x40) (by omega)
    have hb := toNat_toUInt8 (n := 0x80 + code % 0x40) (by omega)
    rw [hencode] at h ⊢
    obtain ⟨rfl, rfl⟩ := List.cons.inj h
    refine (first_two more ⟨?_, ?_⟩ ((isContinuation_iff _).mpr ?_)).trans ?_
    · omega
    · omega
    · omega
    · rw [payload, hlead, hb]
      congr 1
      omega
  have hvalid : ¬ ((decide (0xD800 ≤ code) && decide (code ≤ 0xDFFF) ||
      decide (0x10FFFF < code)) = true) := by
    simp only [Bool.or_eq_true, Bool.and_eq_true, decide_eq_true_eq]
    omega
  by_cases hthree : code < 0x10000
  · have hencode : encode code = [(0xE0 + code / 0x1000).toUInt8,
        (0x80 + code / 0x40 % 0x40).toUInt8, (0x80 + code % 0x40).toUInt8] := by
      rw [encode, if_neg hone, if_neg htwo, if_neg hvalid, if_pos hthree]
    have hlead := toNat_toUInt8 (n := 0xE0 + code / 0x1000) (by omega)
    have hb := toNat_toUInt8 (n := 0x80 + code / 0x40 % 0x40) (by omega)
    have hc := toNat_toUInt8 (n := 0x80 + code % 0x40) (by omega)
    rw [hencode] at h ⊢
    obtain ⟨rfl, rfl⟩ := List.cons.inj h
    refine (first_three more ⟨?_, ?_⟩ ((secondOfThree_iff _ _).mpr ?_)
      ((isContinuation_iff _).mpr ?_)).trans ?_
    · omega
    · omega
    · omega
    · omega
    · rw [payload, payload, hlead, hb, hc]
      congr 1
      omega
  · have hencode : encode code = [(0xF0 + code / 0x40000).toUInt8,
        (0x80 + code / 0x1000 % 0x40).toUInt8, (0x80 + code / 0x40 % 0x40).toUInt8,
        (0x80 + code % 0x40).toUInt8] := by
      rw [encode, if_neg hone, if_neg htwo, if_neg hvalid, if_neg hthree]
    have hlead := toNat_toUInt8 (n := 0xF0 + code / 0x40000) (by omega)
    have hb := toNat_toUInt8 (n := 0x80 + code / 0x1000 % 0x40) (by omega)
    have hc := toNat_toUInt8 (n := 0x80 + code / 0x40 % 0x40) (by omega)
    have hd := toNat_toUInt8 (n := 0x80 + code % 0x40) (by omega)
    rw [hencode] at h ⊢
    obtain ⟨rfl, rfl⟩ := List.cons.inj h
    refine (first_four more ⟨?_, ?_⟩ ((secondOfFour_iff _ _).mpr ?_)
      ((isContinuation_iff _).mpr ?_) ((isContinuation_iff _).mpr ?_)).trans ?_
    · omega
    · omega
    · omega
    · omega
    · omega
    · rw [payload, payload, payload, hlead, hb, hc, hd]
      congr 1
      omega

/-- A rune at the start of a text has bytes, and the text starts with them. -/
theorem Starts.exists_bytes {text : Text} {rune : Rune} (h : Starts text rune) :
    rune.bytes ≠ [] ∧ rune.bytes <+: text := by
  cases h with
  | scalar hc rest =>
    refine ⟨?_, List.prefix_append _ _⟩
    simp only [bytes, encode]
    repeat' split
    all_goals exact List.cons_ne_nil _ _
  | stray h => exact ⟨List.cons_ne_nil _ _, List.prefix_append [_] _⟩

/-- The rune at the start of a text is the one that is found there. -/
theorem starts_iff (lead : UInt8) (rest : Text) (rune : Rune) :
    Starts (lead :: rest) rune ↔ rune = first lead rest := by
  constructor
  · intro h
    generalize htext : lead :: rest = text at h
    cases h with
    | scalar hc more => exact (first_of_encode hc htext).symm
    | @stray b rest' h =>
      obtain ⟨rfl, rfl⟩ := List.cons.inj htext
      cases hfirst : first lead rest with
      | scalar code bytes =>
        obtain ⟨hcode, hencode, hstart⟩ := encode_of_first hfirst
        exact absurd (hencode ▸ hstart) (h code hcode)
      | stray b => rw [eq_of_first_stray hfirst]
  · rintro rfl
    cases hfirst : first lead rest with
    | scalar code bytes =>
      obtain ⟨hcode, rfl, more, hmore⟩ := encode_of_first hfirst
      exact hmore ▸ .scalar hcode more
    | stray b =>
      obtain rfl := eq_of_first_stray hfirst
      refine .stray fun code hcode hstart => ?_
      obtain ⟨more, hmore⟩ := hstart
      rw [first_of_encode hcode hmore.symm] at hfirst
      cases hfirst

end Lox.Rune
