import Lox.Proofs.Number.Shortest
import Lox.Proofs.Number.Unsigned
import Lox.Proofs.Text.Delimited

/-!
# Numbers told apart by their texts

The text of a finite number without a sign is a numeral: digits, and after a point further
digits if there are any. The value of the numeral is that of the number's shortest decimal, so
two numbers without a sign that have one text are the same number.
-/

namespace Lox.Number

/-- The digits of two texts in a row as one number. -/
theorem digitsValue_append (s t : Text) :
    digitsValue (s ++ t) = digitsValue s * 10 ^ t.length + digitsValue t := by
  simp only [digitsValue, List.foldl_append]
  generalize List.foldl (fun n d => 10 * n + (d.toNat - 0x30)) 0 s = start
  induction t using List.reverseRecOn with
  | nil => simp only [List.foldl_nil, List.length_nil, pow_zero, mul_one, add_zero]
  | append_singleton t d ih =>
    simp only [List.foldl_append, List.foldl_cons, List.foldl_nil, ih, List.length_append,
      List.length_singleton, pow_succ]
    ring

/-- Zeros spell zero. -/
theorem digitsValue_zeros (count : Nat) : digitsValue (zeros count) = 0 := by
  induction count with
  | zero => rfl
  | succ count ih => exact ih

/-- The character of a decimal digit is a byte. -/
theorem toNat_of_mem_toDigits {n : Nat} {c : Char} (h : c ∈ Nat.toDigits 10 n) :
    0x30 ≤ c.toNat ∧ c.toNat ≤ 0x39 ∧ c.toNat.toUInt8.toNat = c.toNat := by
  have hdigit := Nat.isDigit_of_mem_toDigits (by decide) (by decide) h
  obtain ⟨hlow, hhigh⟩ := Char.isDigit_iff_toNat.mp hdigit
  exact ⟨hlow, hhigh, Rune.toNat_toUInt8 (hhigh.trans_lt (by decide))⟩

/-- The decimal digits of a number spell it. -/
theorem digitsValue_decimal (n : Nat) : digitsValue (Text.decimal n) = n := by
  have hread := @Nat.ofDigitChars_ten_toDigits n
  rw [Nat.ofDigitChars_eq_foldl] at hread
  rw [digitsValue, Text.decimal, List.foldl_map]
  refine (List.foldl_ext _ _ _ fun start c hc => ?_).trans hread
  rw [(toNat_of_mem_toDigits hc).2.2]
  rfl

/-- They are digits. -/
theorem isDigit_of_mem_decimal {n : Nat} {b : UInt8} (h : b ∈ Text.decimal n) :
    Text.isDigit b = true := by
  obtain ⟨c, hc, rfl⟩ := List.mem_map.mp h
  obtain ⟨hlow, hhigh, hbyte⟩ := toNat_of_mem_toDigits hc
  simp only [Text.isDigit, Bool.and_eq_true, decide_eq_true_eq, UInt8.le_iff_toNat_le, hbyte]
  exact ⟨hlow, hhigh⟩

/-- There is at least one. -/
theorem decimal_ne_nil (n : Nat) : Text.decimal n ≠ [] := by
  rw [Text.decimal, Ne, List.map_eq_nil_iff]
  exact Nat.toDigits_ne_nil

/-- Zeros are digits. -/
theorem isDigit_of_mem_zeros {count : Nat} {b : UInt8} (h : b ∈ zeros count) :
    Text.isDigit b = true := by
  rw [(List.mem_replicate.mp h).2]
  rfl

/-- The texts of numerals with the numbers they denote. -/
inductive Denotes : Text → ℚ → Prop
  /-- Digits only. -/
  | whole {digits : Text} (hne : digits ≠ []) (h : ∀ b ∈ digits, Text.isDigit b = true) :
      Denotes digits (digitsValue digits)
  /-- Digits before and after a point. -/
  | decimal {digits decimals : Text} (hne : digits ≠ [])
      (h : ∀ b ∈ digits, Text.isDigit b = true) (hne' : decimals ≠ [])
      (h' : ∀ b ∈ decimals, Text.isDigit b = true) :
      Denotes (digits ++ utf8 "." ++ decimals)
        (digitsValue (digits ++ decimals) / 10 ^ decimals.length)

/-- A numeral is a run of digits with what follows it, and denotes the digits of both. -/
theorem Denotes.exists_parts {t : Text} {x : ℚ} (h : Denotes t x) :
    ∃ digits rest : Text, t = digits ++ rest ∧ (∀ b ∈ digits, Text.isDigit b = true) ∧
      (∀ b ∈ rest.head?, Text.isDigit b = false) ∧
      x = digitsValue (digits ++ rest.tail) / 10 ^ rest.tail.length := by
  cases h with
  | whole _ h =>
    refine ⟨t, [], (List.append_nil t).symm, h, nofun, ?_⟩
    rw [List.tail_nil, List.append_nil, List.length_nil, pow_zero, div_one]
  | @decimal digits decimals _ h _ _ =>
    refine ⟨digits, 0x2E :: decimals, List.append_assoc _ _ _, h, ?_, rfl⟩
    intro b hb
    rw [← Option.some.inj hb]
    rfl

/-- A numeral denotes one number. -/
theorem Denotes.unique {t : Text} {x y : ℚ} (h : Denotes t x) (h' : Denotes t y) : x = y := by
  obtain ⟨digits, rest, ht, hdigits, hrest, rfl⟩ := h.exists_parts
  obtain ⟨digits', rest', ht', hdigits', hrest', rfl⟩ := h'.exists_parts
  obtain ⟨rfl, rfl⟩ := append_inj_of_class hdigits hdigits' hrest hrest' (ht.symm.trans ht')
  rfl

/-- A decimal with places after the point is its digits over a power of ten. -/
theorem Decimal.value_of_neg {d : Decimal} (h : ¬ 0 ≤ d.exponent) :
    d.value = d.digits / 10 ^ (-d.exponent).toNat := by
  have hexponent : d.exponent = -((-d.exponent).toNat : Int) := by omega
  rw [value, div_eq_mul_inv, ← zpow_natCast, ← zpow_neg, ← hexponent]

/-- A decimal in positional notation is a numeral that denotes the decimal's value. -/
theorem Decimal.denotes_positional (d : Decimal) : Denotes d.positional d.value := by
  have hne := decimal_ne_nil d.digits
  have hdigits : ∀ b ∈ Text.decimal d.digits, Text.isDigit b = true :=
    fun b => isDigit_of_mem_decimal
  have hspelled := digitsValue_decimal d.digits
  simp only [positional]
  split
  · next hexponent =>
    have hvalue : d.value = digitsValue (Text.decimal d.digits ++ zeros d.exponent.toNat) := by
      have hpower : d.exponent = (d.exponent.toNat : Int) := by omega
      rw [digitsValue_append, hspelled, digitsValue_zeros, zeros, List.length_replicate, value,
        hpower, zpow_natCast, add_zero, Int.toNat_natCast]
      push_cast
      rfl
    rw [hvalue]
    refine .whole (List.append_ne_nil_of_left_ne_nil hne _) ?_
    exact List.forall_mem_append.mpr ⟨hdigits, fun b => isDigit_of_mem_zeros⟩
  next hexponent =>
  rw [value_of_neg hexponent]
  generalize hplaces : (-d.exponent).toNat = places
  have hpos : 0 < places := by omega
  generalize Text.decimal d.digits = digits at hne hdigits hspelled
  have hlength := List.length_pos_iff.mpr hne
  split
  · next hshort =>
    have hjoined := List.take_append_drop (digits.length - places) digits
    have hcount : (digits.drop (digits.length - places)).length = places := by
      rw [List.length_drop]
      omega
    have hwhole : digits.take (digits.length - places) ≠ [] := by
      apply List.ne_nil_of_length_pos
      rw [List.length_take]
      omega
    have hfraction : digits.drop (digits.length - places) ≠ [] :=
      List.ne_nil_of_length_pos (hpos.trans_eq hcount.symm)
    have hdenotes := Denotes.decimal hwhole (fun b hb => hdigits b (List.mem_of_mem_take hb))
      hfraction (fun b hb => hdigits b (List.mem_of_mem_drop hb))
    rwa [hjoined, hspelled, hcount] at hdenotes
  · next hlong =>
    have hdecimals : ∀ b ∈ zeros (places - digits.length) ++ digits, Text.isDigit b = true :=
      List.forall_mem_append.mpr ⟨fun b => isDigit_of_mem_zeros, hdigits⟩
    have hcount : (zeros (places - digits.length) ++ digits).length = places := by
      rw [List.length_append, zeros, List.length_replicate]
      omega
    have hvalue :
        digitsValue (zeros 1 ++ (zeros (places - digits.length) ++ digits)) = d.digits := by
      rw [digitsValue_append, digitsValue_append, digitsValue_zeros, digitsValue_zeros, hspelled]
      omega
    have hzero : zeros 1 ≠ [] := List.cons_ne_nil _ _
    have hdenotes := Denotes.decimal hzero (fun b => isDigit_of_mem_zeros)
      (List.append_ne_nil_of_right_ne_nil _ hne) hdecimals
    rw [hvalue, hcount] at hdenotes
    rw [List.append_assoc]
    exact hdenotes

/-- A numeral starts with a digit. -/
theorem Denotes.exists_digit {t : Text} {x : ℚ} (h : Denotes t x) :
    ∃ b rest, t = b :: rest ∧ Text.isDigit b = true := by
  have hhead {digits : Text} (hne : digits ≠ []) (h : ∀ b ∈ digits, Text.isDigit b = true)
      (more : Text) : ∃ b rest, digits ++ more = b :: rest ∧ Text.isDigit b = true := by
    obtain ⟨b, rest, rfl⟩ := List.exists_cons_of_ne_nil hne
    exact ⟨b, rest ++ more, rfl, h b List.mem_cons_self⟩
  cases h with
  | whole hne h =>
    have hwhole := hhead hne h []
    rwa [List.append_nil] at hwhole
  | @decimal digits decimals hne h _ _ =>
    rw [List.append_assoc]
    exact hhead hne h _

/-- A numeral holds digits and a point only. -/
theorem Denotes.isDigit_or_point {t : Text} {x : ℚ} (h : Denotes t x) {b : UInt8} (hb : b ∈ t) :
    Text.isDigit b = true ∨ b = 0x2E := by
  cases h with
  | whole _ h => exact .inl (h b hb)
  | decimal _ h _ h' =>
    obtain hb | hb := List.mem_append.mp hb
    · obtain hb | hb := List.mem_append.mp hb
      · exact .inl (h b hb)
      · exact .inr (List.mem_singleton.mp hb)
    · exact .inl (h' b hb)

/-- The bits of a positive number. -/
def Magnitude.bits (v : Magnitude) : Nat := (v.exponent + 1074).toNat * 2 ^ 52 + v.significand

/-- The numbers without a sign, by their bits, that round from a number. -/
inductive RoundsTo : ℚ → Nat → Prop
  | zero : RoundsTo 0 0
  | positive {v : Magnitude} (hv : v.IsBinary64) {x : ℚ} (hx : v.Owns x) : RoundsTo x v.bits

/-- At most one number rounds from a number. -/
theorem RoundsTo.unique {x : ℚ} {bits bits' : Nat} (h : RoundsTo x bits) (h' : RoundsTo x bits') :
    bits = bits' := by
  cases h with
  | zero =>
    cases h' with
    | zero => rfl
    | positive hv hx => exact absurd (hx.pos hv) (lt_irrefl 0)
  | positive hv hx =>
    cases h' with
    | zero => exact absurd (hx.pos hv) (lt_irrefl 0)
    | positive hw hx' => rw [hx.unique hv hw hx']

/-- The numbers next to zero are binary64 numbers. -/
theorem Magnitude.isBinary64_of_fraction (fraction : Nat) (hpos : 0 < fraction)
    (hlt : fraction < 2 ^ 52) : IsBinary64 ⟨fraction, -1074, false⟩ where
  pos := hpos
  lt := hlt.trans (by decide)
  le_exponent := le_refl _
  exponent_le := by simp only; omega
  full h := absurd h (lt_irrefl _)
  close := ⟨nofun, fun h => absurd h.2 (lt_irrefl _)⟩

/-- So are those with a full significand. -/
theorem Magnitude.isBinary64_of_biased {fraction : Nat} (biased : Nat)
    (hlt : fraction < 2 ^ 52) (hbiased : 0 < biased) (hfinite : biased < 2047) :
    IsBinary64 ⟨2 ^ 52 + fraction, (biased : Int) - 1075, fraction == 0 && 1 < biased⟩ where
  pos := Nat.add_pos_left (by decide) _
  lt := by simp only; omega
  le_exponent := by simp only; omega
  exponent_le := by simp only; omega
  full _ := Nat.le_add_right _ _
  close := by
    simp only [Bool.and_eq_true, beq_iff_eq, decide_eq_true_eq]
    omega

/-- The parts of a number without a sign. -/
theorem parts_of_unsigned {x : Float} (h : x.toBits.toNat ≤ infinityBits) :
    (parts x = .infinity false ∧ x.toBits.toNat = infinityBits) ∨
      (parts x = .zero false ∧ x.toBits.toNat = 0) ∨
      ∃ v : Magnitude, parts x = .finite false v ∧ v.IsBinary64 ∧ x.toBits.toNat = v.bits := by
  simp only [parts]
  generalize x.toBits.toNat = bits at h
  rw [infinityBits] at h ⊢
  have hsign : (bits / Nat.pow 2 63 == 1) = false := by
    rw [beq_eq_false_iff_ne, Nat.pow_eq]
    omega
  have hfraction : bits % Nat.pow 2 52 < 2 ^ 52 := Nat.mod_lt bits (by decide)
  have hbits : bits = bits / Nat.pow 2 52 % Nat.pow 2 11 * 2 ^ 52 + bits % Nat.pow 2 52 := by
    simp only [Nat.pow_eq]
    omega
  simp only [hsign, beq_iff_eq]
  clear hsign
  -- From here on the exponent and the fraction are variables: only their bounds matter.
  generalize bits / Nat.pow 2 52 % Nat.pow 2 11 = biased at hbits
  generalize bits % Nat.pow 2 52 = fraction at hbits hfraction
  split
  · have hzero : fraction = 0 := by omega
    exact .inl ⟨if_pos hzero, by omega⟩
  split
  · next hbiased =>
    rw [hbiased, zero_mul, zero_add] at hbits
    split
    · next hzero => exact .inr (.inl ⟨rfl, hbits.trans hzero⟩)
    · next hne =>
      have hfinite := Magnitude.isBinary64_of_fraction fraction (Nat.pos_of_ne_zero hne) hfraction
      have hplace : ((-1074 : Int) + 1074).toNat = 0 := rfl
      refine .inr (.inr ⟨_, rfl, hfinite, ?_⟩)
      rw [Magnitude.bits, hplace, hbits, zero_mul, zero_add]
  · next hbiased =>
    have hfinite := Magnitude.isBinary64_of_biased biased hfraction (by omega) (by omega)
    have hplace : ((biased : Int) - 1075 + 1074).toNat = biased - 1 := by omega
    refine .inr (.inr ⟨_, rfl, hfinite, ?_⟩)
    rw [Magnitude.bits, hplace, hbits, Nat.pow_eq, ← add_assoc, ← Nat.succ_mul,
      Nat.succ_eq_add_one, Nat.sub_add_cancel (Nat.pos_of_ne_zero hbiased)]

/-- A number without a sign is infinite, or its text is a numeral whose value rounds to it. -/
theorem text_of_unsigned {x : Float} (h : x.toBits.toNat ≤ infinityBits) :
    (text x = utf8 "+Inf" ∧ x.toBits.toNat = infinityBits) ∨
      ∃ q, Denotes (text x) q ∧ RoundsTo q x.toBits.toNat := by
  obtain ⟨hparts, hbits⟩ | ⟨hparts, hbits⟩ | ⟨v, hparts, hv, hbits⟩ := parts_of_unsigned h
  · refine .inl ⟨?_, hbits⟩
    rw [text, hparts]
    rfl
  · refine .inr ⟨0, ?_, hbits ▸ .zero⟩
    rw [text, hparts]
    have hzero : zeros 1 ≠ [] := List.cons_ne_nil _ _
    have hdenotes := Denotes.whole hzero fun b => isDigit_of_mem_zeros
    rwa [digitsValue_zeros, Nat.cast_zero] at hdenotes
  · refine .inr ⟨v.shortest.value, ?_, hbits ▸ .positive hv (Magnitude.owns_shortest hv)⟩
    rw [text, hparts]
    exact v.shortest.denotes_positional

/-- A number without a sign is known by its text. -/
theorem text_inj {x y : Float} (hx : x.toBits.toNat ≤ infinityBits)
    (hy : y.toBits.toNat ≤ infinityBits) (h : text x = text y) : x = y := by
  have hne {q : ℚ} : ¬ Denotes (utf8 "+Inf") q := by
    intro hd
    obtain ⟨b, rest, heq, hb⟩ := hd.exists_digit
    rw [← (List.cons.inj heq).1] at hb
    cases hb
  have hbits : x.toBits.toNat = y.toBits.toNat := by
    obtain ⟨hxtext, hxbits⟩ | ⟨q, hxtext, hxbits⟩ := text_of_unsigned hx
    · obtain ⟨hytext, hybits⟩ | ⟨q', hytext, hybits⟩ := text_of_unsigned hy
      · exact hxbits.trans hybits.symm
      · rw [← h, hxtext] at hytext
        exact absurd hytext hne
    · obtain ⟨hytext, hybits⟩ | ⟨q', hytext, hybits⟩ := text_of_unsigned hy
      · rw [h, hytext] at hxtext
        exact absurd hxtext hne
      · obtain rfl := hxtext.unique (h ▸ hytext)
        exact hxbits.unique hybits
  have hwords : x.toBits = y.toBits := UInt64.toNat_inj.mp hbits
  obtain ⟨⟨xbits, xvalid⟩⟩ := x
  obtain ⟨⟨ybits, yvalid⟩⟩ := y
  cases (hwords : xbits = ybits)
  rfl

end Lox.Number
