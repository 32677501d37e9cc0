import Mathlib.Algebra.Group.Nat.Defs
import Lox.Number.Positional

/-!
# Numbers without a sign

A numeral has no sign, and what it spells has none either: it is a number from zero up to
positive infinity. Such numbers are those whose bits are at most the bits of positive infinity.
-/

namespace Lox.Number

open Float.Model
open Float.Model.UnpackedFloat

/-- The bits of positive infinity. -/
def infinityBits : Nat := 2047 * 2 ^ 52

/-- A number from positive zero up to positive infinity. -/
inductive IsUnsigned : UnpackedFloat → Prop
  | zero : IsUnsigned (.zero .positive)
  | finite {m : Nat} {e : Int} (hm : 0 < m) : IsUnsigned (.finite .positive m e hm)
  | infinity : IsUnsigned (.infinity .positive)

/-- Whether a number lies strictly between zero and positive infinity. -/
def isPositive : UnpackedFloat → Bool
  | .finite .positive _ _ _ => true
  | _ => false

/-- A number has no sign if it has none whether or not a condition holds. -/
theorem isUnsigned_dite {c : Prop} [Decidable c] {x : c → UnpackedFloat} {y : ¬c → UnpackedFloat}
    (hx : ∀ h, IsUnsigned (x h)) (hy : ∀ h, IsUnsigned (y h)) : IsUnsigned (dite c x y) := by
  by_cases h : c
  · rw [dif_pos h]
    exact hx h
  · rw [dif_neg h]
    exact hy h

/-- Rounding keeps a number without a sign. -/
theorem isUnsigned_roundWithAccuracy (spec : Format) (m : Nat) (e : Int) (accuracy : Accuracy) :
    IsUnsigned (roundWithAccuracy spec .positive m e accuracy) := by
  unfold roundWithAccuracy
  dsimp only
  exact isUnsigned_dite (fun _ => .zero) fun _ => .finite _

/-- A natural number has no sign. -/
theorem isUnsigned_ofNat (spec : Format) (n : Nat) : IsUnsigned (UnpackedFloat.ofNat spec n) := by
  simp only [UnpackedFloat.ofNat, UnpackedFloat.ofInt, UnpackedFloat.normalize]
  split
  · next h =>
    have hneg : (n : Int) < 0 := Int.compare_eq_lt.mp h
    omega
  · exact .zero
  · exact isUnsigned_roundWithAccuracy ..

/-- A number without a sign over a positive one has no sign. -/
theorem IsUnsigned.div (spec : Format) {x y : UnpackedFloat} (hx : IsUnsigned x)
    (hy : isPositive y = true) : IsUnsigned (UnpackedFloat.div spec x y) := by
  match y, hy with
  | .finite .positive m e hm, _ =>
    cases hx with
    | zero => exact .zero
    | finite => exact isUnsigned_roundWithAccuracy ..
    | infinity => exact .infinity

/-- A decimal without a sign denotes a number without one. -/
theorem isUnsigned_ofScientific (spec : Format) (m : Nat) (e : Int) :
    IsUnsigned (UnpackedFloat.ofScientific spec m e) := by
  unfold UnpackedFloat.ofScientific
  refine isUnsigned_dite (fun _ => .zero) fun _ => ?_
  refine iteInduction (fun _ => .infinity) fun _ => ?_
  refine iteInduction (fun _ => .zero) fun _ => ?_
  refine iteInduction (fun _ => isUnsigned_roundWithAccuracy ..) fun _ => ?_
  exact (IsUnsigned.finite _).div _ rfl

/-- The bits of a number without a sign are those of its exponent and its fraction. -/
theorem toNat_packComponents (e : BitVec 11) (m : BitVec 52) :
    (packComponents .binary64 .positive e m).toNat = e.toNat * 2 ^ 52 + m.toNat := by
  have hshift := Nat.shiftLeft_add_eq_or_of_lt m.isLt e.toNat
  rw [packComponents, Sign.toBitVec, BitVec.toNat_append, BitVec.toNat_append, BitVec.toNat_ofNat,
    Nat.zero_mod, Nat.zero_shiftLeft, Nat.zero_or, ← hshift, Nat.shiftLeft_eq]

/-- The bits of a number without a sign are at most those of positive infinity. -/
theorem IsUnsigned.toNat_pack_le {x : UnpackedFloat} (hx : IsUnsigned x) :
    (UnpackedFloat.pack .binary64 x).toNat ≤ infinityBits := by
  have hinfinity : (packedInfinity .binary64 .positive).toNat = infinityBits := by decide
  cases hx with
  | zero => decide
  | infinity => exact Nat.le_of_eq hinfinity
  | @finite m e hm =>
    unfold UnpackedFloat.pack
    dsimp only
    generalize (e + Format.exponentBias .binary64 + (52 : Nat)).toNat = biased
    have hfraction := (BitVec.ofNat 52 m).isLt
    split
    · exact Nat.le_of_eq hinfinity
    next hsmall =>
    have hexponent : (BitVec.ofNat 11 biased).toNat = biased := by
      rw [BitVec.toNat_ofNat]
      omega
    split
    · rw [toNat_packComponents, hexponent, infinityBits]
      omega
    · rw [toNat_packComponents, infinityBits, BitVec.toNat_ofNat, Nat.zero_mod]
      omega

/-- Bits that are at most those of positive infinity are those of a number without a sign. -/
theorem isUnsigned_unpack {b : BitVec 64} (hb : b.toNat ≤ infinityBits) :
    IsUnsigned (UnpackedFloat.unpack .binary64 b) := by
  rw [infinityBits] at hb
  have hsign : @unpackSign .binary64 b = 0#1 := by
    apply BitVec.eq_of_toNat_eq
    unfold unpackSign
    simp only [BitVec.toNat_cast, BitVec.extractLsb_toNat, Nat.shiftRight_eq_div_pow,
      Nat.reduceAdd, Nat.reducePow, Nat.sub_self, Nat.zero_add, Nat.pow_one, BitVec.toNat_ofNat,
      Nat.zero_mod]
    omega
  have hfraction (h : @unpackExponent .binary64 b = -1#11) :
      @unpackMantissa .binary64 b = 0#52 := by
    have h' := congrArg BitVec.toNat h
    apply BitVec.eq_of_toNat_eq
    simp only [unpackExponent, unpackMantissa, BitVec.toNat_cast, BitVec.extractLsb_toNat,
      Nat.shiftRight_eq_div_pow, Nat.reducePow, Nat.reduceAdd, Nat.add_one_sub_one, Nat.reduceSub,
      BitVec.reduceNeg, BitVec.toNat_ofNat, Nat.mod_succ, Nat.pow_zero, Nat.div_one, Nat.sub_zero,
      Nat.zero_mod] at h' ⊢
    omega
  unfold UnpackedFloat.unpack
  dsimp only
  rw [hsign]
  refine iteInduction (fun h => ?_) fun _ => ?_
  · rw [if_pos (hfraction h)]
    exact .infinity
  refine iteInduction (fun _ => ?_) fun _ => .finite _
  exact isUnsigned_dite (fun _ => .zero) fun _ => .finite _

/-- The powers of ten up to the twenty-second are positive. -/
theorem isPositive_power :
    ∀ e : Fin Float.exactlyRepresentablePowersOfTen.size,
      isPositive Float.exactlyRepresentablePowersOfTen[e].toModel.unpack = true := by
  decide +kernel

/-- What a numeral spells has no sign. -/
theorem toBits_ofNumeral_le (whole fraction : Text) :
    (ofNumeral whole fraction).toBits.toNat ≤ infinityBits := by
  rw [ofNumeral, Float.ofScientific]
  split
  · next h =>
    have hsize : fraction.length < Float.exactlyRepresentablePowersOfTen.size :=
      Nat.lt_succ_of_le h.2
    have hpower := isPositive_power ⟨fraction.length, hsize⟩
    have hwhole := isUnsigned_ofNat .binary64 (digitsValue (whole ++ fraction)).toUInt64.toNat
    have hread := isUnsigned_unpack hwhole.toNat_pack_le
    exact (hread.div .binary64 hpower).toNat_pack_le
  · exact (isUnsigned_ofScientific ..).toNat_pack_le

end Lox.Number
