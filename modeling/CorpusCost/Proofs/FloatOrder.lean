import Mathlib
import CorpusCost.Number.Scalar

/-!
# The two orders of doubles

Results are ranked by the total order of doubles, but one best result replaces another by the order
`<`, in which nothing is below or above what is not a number. The two agree on numbers without a
minus sign (`lt_iff_totalKey`), and what is not a number comes last in the total order. The bits of
a double are read as in its logical model: from the exponent and the significand.
-/

set_option autoImplicit false

namespace CorpusCost.Number

open Float.Model (UnpackedFloat Format)
open Float.Model.UnpackedFloat (Sign)

/-! ## The bits of a double -/

theorem toNat_packComponents (exponent : BitVec 11) (mantissa : BitVec 52) :
    (UnpackedFloat.packComponents Format.binary64 .positive exponent mantissa).toNat =
      exponent.toNat * 2 ^ 52 + mantissa.toNat := by
  have happend : (UnpackedFloat.packComponents Format.binary64 .positive exponent mantissa).toNat =
      ((0#1 ++ exponent) ++ mantissa : BitVec (1 + 11 + 52)).toNat := rfl
  rw [happend, BitVec.toNat_append, BitVec.toNat_append,
    ← Nat.shiftLeft_add_eq_or_of_lt mantissa.isLt, Nat.shiftLeft_eq]
  simp

theorem toNat_unpackMantissa (bits : BitVec 64) :
    (@UnpackedFloat.unpackMantissa Format.binary64 bits).toNat =
      bits.toNat % 2 ^ 52 := by
  unfold UnpackedFloat.unpackMantissa
  simp [BitVec.extractLsb]

theorem toNat_unpackExponent (bits : BitVec 64) :
    (@UnpackedFloat.unpackExponent Format.binary64 bits).toNat =
      bits.toNat / 2 ^ 52 % 2 ^ 11 := by
  unfold UnpackedFloat.unpackExponent
  simp [BitVec.extractLsb, Nat.shiftRight_eq_div_pow]

theorem toNat_unpackSign (bits : BitVec 64) :
    (@UnpackedFloat.unpackSign Format.binary64 bits).toNat = bits.toNat / 2 ^ 63 := by
  have hlt : bits.toNat < 2 ^ 64 := bits.isLt
  unfold UnpackedFloat.unpackSign
  simp [BitVec.extractLsb, Nat.shiftRight_eq_div_pow]
  omega

theorem unpackMantissa_eq_zero_iff (bits : BitVec 64) :
    @UnpackedFloat.unpackMantissa Format.binary64 bits = 0#52 ↔ bits.toNat % 2 ^ 52 = 0 := by
  rw [← BitVec.toNat_inj, toNat_unpackMantissa]
  rfl

theorem unpackExponent_eq_zero_iff (bits : BitVec 64) :
    @UnpackedFloat.unpackExponent Format.binary64 bits = 0#11 ↔
      bits.toNat / 2 ^ 52 % 2 ^ 11 = 0 := by
  rw [← BitVec.toNat_inj, toNat_unpackExponent]
  rfl

theorem unpackExponent_eq_top_iff (bits : BitVec 64) :
    @UnpackedFloat.unpackExponent Format.binary64 bits = -1#11 ↔
      bits.toNat / 2 ^ 52 % 2 ^ 11 = 2047 := by
  rw [← BitVec.toNat_inj, toNat_unpackExponent]
  rfl

theorem unpackSign_of_lt {bits : BitVec 64} (hbits : bits.toNat < 2 ^ 63) :
    @UnpackedFloat.unpackSign Format.binary64 bits = 0#1 := by
  apply BitVec.eq_of_toNat_eq
  rw [toNat_unpackSign, Nat.div_eq_of_lt hbits]
  rfl

/-- The significand of a normal double has one bit more than is stored. -/
theorem toNat_normalMantissa (bits : BitVec 64) :
    (1#1 ++ @UnpackedFloat.unpackMantissa Format.binary64 bits).toNat =
      2 ^ 52 + bits.toNat % 2 ^ 52 := by
  rw [BitVec.toNat_append, ← Nat.shiftLeft_add_eq_or_of_lt (BitVec.isLt _), Nat.shiftLeft_eq,
    toNat_unpackMantissa]
  simp

/-! ## The order -/

/-- What the bits without a minus sign stand for: infinity, no number, zero, or a number whose
exponent and significand are read off the bits. -/
theorem unpack_cases {bits : BitVec 64} (hbits : bits.toNat < 2 ^ 63) :
    (bits.toNat = 0x7ff0000000000000 ∧
        UnpackedFloat.unpack Format.binary64 bits = .infinity .positive) ∨
      (0x7ff0000000000000 < bits.toNat ∧
        UnpackedFloat.unpack Format.binary64 bits = .notANumber) ∨
      (bits.toNat = 0 ∧ UnpackedFloat.unpack Format.binary64 bits = .zero .positive) ∨
      ∃ (mantissa : Nat) (exponent : Int) (hpos : 0 < mantissa),
        UnpackedFloat.unpack Format.binary64 bits = .finite .positive mantissa exponent hpos ∧
          (-1074 ≤ exponent ∧ exponent < 972) ∧
          (mantissa < 2 ^ 53 ∧ (-1074 < exponent → 2 ^ 52 ≤ mantissa)) ∧
          (bits.toNat : Int) = (exponent + 1074) * 2 ^ 52 + mantissa := by
  have hbias : Format.exponentBias Format.binary64 = 1023 := rfl
  unfold UnpackedFloat.unpack
  rw [unpackSign_of_lt hbits]
  dsimp only
  split
  · rename_i htop
    have hexponent := (unpackExponent_eq_top_iff bits).mp htop
    split
    · rename_i hnone
      have hmantissa := (unpackMantissa_eq_zero_iff bits).mp hnone
      exact .inl ⟨by omega, rfl⟩
    · rename_i hsome
      have hmantissa := mt (unpackMantissa_eq_zero_iff bits).mpr hsome
      exact .inr (.inl ⟨by omega, rfl⟩)
  · rename_i htop
    have hfinite := mt (unpackExponent_eq_top_iff bits).mpr htop
    split
    · rename_i hlow
      have hexponent := (unpackExponent_eq_zero_iff bits).mp hlow
      split
      · rename_i hnone
        have hmantissa := (unpackMantissa_eq_zero_iff bits).mp hnone
        exact .inr (.inr (.inl ⟨by omega, rfl⟩))
      · rename_i hsome
        have hmantissa := mt (unpackMantissa_eq_zero_iff bits).mpr hsome
        have hpos : 0 < (@UnpackedFloat.unpackMantissa Format.binary64 bits).toNat := by
          rw [toNat_unpackMantissa]
          omega
        refine .inr (.inr (.inr ⟨_, _, hpos, rfl, ?_⟩))
        rw [hbias, toNat_unpackExponent, toNat_unpackMantissa]
        omega
    · rename_i hlow
      have hexponent := mt (unpackExponent_eq_zero_iff bits).mpr hlow
      have hpos : 0 < (1#1 ++ @UnpackedFloat.unpackMantissa Format.binary64 bits).toNat := by
        rw [toNat_normalMantissa]
        omega
      refine .inr (.inr (.inr ⟨_, _, hpos, rfl, ?_⟩))
      rw [hbias, toNat_normalMantissa, toNat_unpackExponent]
      omega

/-- Doubles without a minus sign are ordered as their bits; what is not a number is below
nothing and above nothing. -/
theorem unpack_lt_iff {bits others : BitVec 64} (hbits : bits.toNat < 2 ^ 63)
    (hothers : others.toNat < 2 ^ 63) :
    (UnpackedFloat.unpack Format.binary64 bits).lt
        (UnpackedFloat.unpack Format.binary64 others) = true ↔
      bits.toNat < others.toNat ∧ others.toNat ≤ 0x7ff0000000000000 := by
  unfold UnpackedFloat.lt
  rw [beq_iff_eq]
  obtain ⟨hx, hux⟩ | ⟨hx, hux⟩ | ⟨hx, hux⟩ | ⟨m, e, hm, hux, he, hmax, hx⟩ :=
      unpack_cases hbits <;>
    obtain ⟨hy, huy⟩ | ⟨hy, huy⟩ | ⟨hy, huy⟩ | ⟨n, f, hn, huy, hf, hnax, hy⟩ :=
      unpack_cases hothers <;>
    rw [hux, huy] <;>
    simp only [UnpackedFloat.compare, Option.some.injEq, reduceCtorEq, false_iff, true_iff,
      Ordering.then_eq_lt, Int.compare_eq_lt, Nat.compare_eq_lt, Int.compare_eq_eq]
  all_goals omega

/-- Whether a double has no minus sign. -/
def Unsigned (x : Float) : Prop := x.toBits.toNat < 2 ^ 63

instance (x : Float) : Decidable (Unsigned x) :=
  inferInstanceAs (Decidable (x.toBits.toNat < 2 ^ 63))

theorem Unsigned.totalKey_eq {x : Float} (hx : Unsigned x) : totalKey x = x.toBits.toNat := by
  have hbits : ¬0x8000000000000000 ≤ x.toBits := by
    rw [UInt64.le_iff_toNat_le]
    unfold Unsigned at hx
    simp
    omega
  simp [totalKey, isNegative, hbits]

theorem unpack_toModel (x : Float) :
    x.toModel.unpack = UnpackedFloat.unpack Format.binary64 x.toBits.toBitVec := rfl

/-- Below what is not a number come all numbers without a minus sign. -/
theorem Unsigned.isNaN_iff {x : Float} (hx : Unsigned x) :
    x.isNaN = true ↔ 0x7ff0000000000000 < x.toBits.toNat := by
  have hbits : x.isNaN =
      (UnpackedFloat.unpack Format.binary64 x.toBits.toBitVec).isNaN := rfl
  rw [hbits]
  have hnat : x.toBits.toBitVec.toNat = x.toBits.toNat := rfl
  obtain ⟨h, hu⟩ | ⟨h, hu⟩ | ⟨h, hu⟩ | ⟨m, e, hm, hu, he, hmax, h⟩ :=
      @unpack_cases x.toBits.toBitVec hx <;>
    rw [hu] <;> simp only [UnpackedFloat.isNaN, reduceCtorEq, false_iff, true_iff] <;> omega

/-- There is one double that is not a number. -/
theorem Unsigned.totalKey_of_isNaN {x : Float} (hx : Unsigned x) (hnan : x.isNaN = true) :
    totalKey x = 0x7ff8000000000000 := by
  have hbits := hx.isNaN_iff.mp hnan
  have hlt : x.toBits.toBitVec.toNat < 2 ^ 63 := hx
  have hnat : x.toBits.toBitVec.toNat = x.toBits.toNat := rfl
  have hexponent := (unpackExponent_eq_top_iff x.toBits.toBitVec).mpr (by omega)
  have hmantissa := mt (unpackMantissa_eq_zero_iff x.toBits.toBitVec).mp (by omega)
  have hpacked : x.toBits.toBitVec = UnpackedFloat.packedNaN Format.binary64 :=
    x.toModel.valid.eq_packedNaN hexponent hmantissa
  rw [hx.totalKey_eq, ← hnat, hpacked]
  decide

/-- On doubles without a minus sign `<` is the total order up to the infinity. -/
theorem Unsigned.lt_iff {x y : Float} (hx : Unsigned x) (hy : Unsigned y) :
    x < y ↔ totalKey x < totalKey y ∧ y.isNaN = false := by
  have hlt : x < y ↔ (UnpackedFloat.unpack Format.binary64 x.toBits.toBitVec).lt
      (UnpackedFloat.unpack Format.binary64 y.toBits.toBitVec) = true := decide_eq_true_iff
  have hnan := hy.isNaN_iff
  rw [hlt, unpack_lt_iff hx hy, hx.totalKey_eq, hy.totalKey_eq, ← Bool.not_eq_true, hnan]
  have hother : y.toBits.toBitVec.toNat = y.toBits.toNat := rfl
  show x.toBits.toNat < y.toBits.toNat ∧ _ ↔ _
  omega

end CorpusCost.Number
