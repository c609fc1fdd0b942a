import CorpusCost.Fit.Words
import CorpusCost.Proofs.FloatSign

/-!
# Fractions of one

A fraction is drawn as a whole number below two to the fifty-second power, divided by that power.
Each operation on the way has a result whose significand fits, so that nothing is rounded
(`Normal.roundWithAccuracy_eq`), and the quotient is below one. It follows that every fraction falls
short of one and that none falls short of zero.
-/

set_option autoImplicit false

namespace CorpusCost

open Float.Model (UnpackedFloat Format)
open Float.Model.UnpackedFloat (ExtendedMantissa)

namespace Number

/-! ## Exact results -/

/-- Whether a significand takes all 53 bits and an exponent is in the range of doubles. -/
structure Normal (mantissa : Nat) (exponent : Int) : Prop where
  low : 2 ^ 52 ≤ mantissa
  high : mantissa < 2 ^ 53
  least : -1074 ≤ exponent
  greatest : exponent < 972

/-- Zeros behind a number move its highest bit. -/
theorem bounds_shifted {n bits : Nat} (hlow : 2 ^ bits ≤ n) (hhigh : n < 2 ^ (bits + 1))
    (count : Nat) :
    2 ^ (bits + count) ≤ n * 2 ^ count ∧ n * 2 ^ count < 2 ^ (bits + count + 1) := by
  rw [Nat.add_right_comm, Nat.pow_add, Nat.pow_add]
  exact ⟨Nat.mul_le_mul_right _ hlow, Nat.mul_lt_mul_of_pos_right hhigh (Nat.two_pow_pos count)⟩

namespace Normal

variable {mantissa : Nat} {exponent : Int}

theorem pos (h : Normal mantissa exponent) : 0 < mantissa := by
  have := h.low
  omega

theorem log2_eq (h : Normal mantissa exponent) : mantissa.log2 = 52 :=
  (Nat.log2_eq_iff h.pos.ne').mpr ⟨h.low, h.high⟩

theorem log2_shifted (h : Normal mantissa exponent) (count : Nat) :
    (mantissa * 2 ^ count).log2 = 52 + count := by
  have hpos := Nat.mul_pos h.pos (Nat.two_pow_pos count)
  exact (Nat.log2_eq_iff hpos.ne').mpr (bounds_shifted h.low h.high count)

/-- The exponent that a result is brought to is the one with which its significand takes all
bits. -/
theorem targetExponent_eq (h : Normal mantissa exponent) (count : Nat) :
    Format.binary64.targetExponent
      (Float.Model.totalExponent (mantissa * 2 ^ count) (exponent - count)) = exponent := by
  have hleast := h.least
  have hmantissa : Format.binary64.mantissaBits = 53 := rfl
  have hmin : Format.binary64.minExponent = -1074 := rfl
  rw [Format.targetExponent, Float.Model.totalExponent, h.log2_shifted, hmantissa, hmin]
  push_cast
  omega

end Normal

/-- Zeros that are shifted out leave nothing to be rounded. -/
theorem shiftRight_exact (mantissa count : Nat) :
    (⟨mantissa * 2 ^ count, false, false⟩ : ExtendedMantissa) >>> count =
      ⟨mantissa, false, false⟩ := by
  show count.repeat ExtendedMantissa.shiftRightOne _ = _
  induction count generalizing mantissa with
  | zero => rw [Nat.pow_zero, Nat.mul_one, Nat.repeat]
  | succ count ih =>
    rw [Nat.repeat, Nat.pow_succ', ← Nat.mul_assoc, ih, ExtendedMantissa.shiftRightOne]
    simp

namespace Normal

variable {mantissa : Nat} {exponent : Int}

theorem shiftToTargetExponent_eq (h : Normal mantissa exponent) (count : Nat) :
    UnpackedFloat.shiftToTargetExponent Format.binary64 (mantissa * 2 ^ count) (exponent - count)
      .exact = (⟨mantissa, false, false⟩, exponent) := by
  have hamount : (exponent - (exponent - count)).toNat = count := by omega
  rw [UnpackedFloat.shiftToTargetExponent, h.targetExponent_eq, UnpackedFloat.shiftToExponent,
    hamount, ExtendedMantissa.ofMantissaAndAccuracy, shiftRight_exact, Int.sub_add_cancel]

theorem shiftToTargetExponent_self (h : Normal mantissa exponent) :
    UnpackedFloat.shiftToTargetExponent Format.binary64 mantissa exponent .exact =
      (⟨mantissa, false, false⟩, exponent) := by
  simpa using h.shiftToTargetExponent_eq 0

/-- A result that has a full significand followed by zeros is not rounded. -/
theorem roundWithAccuracy_eq (h : Normal mantissa exponent) (count : Nat) :
    UnpackedFloat.roundWithAccuracy Format.binary64 .positive (mantissa * 2 ^ count)
      (exponent - count) .exact = .finite .positive mantissa exponent h.pos := by
  rw [UnpackedFloat.roundWithAccuracy, h.shiftToTargetExponent_eq]
  dsimp only [ExtendedMantissa.roundedMantissa, ExtendedMantissa.accuracy,
    UnpackedFloat.Accuracy.roundToNearestEven]
  rw [h.shiftToTargetExponent_self]
  exact dif_neg h.pos.ne'

theorem roundWithAccuracy_self (h : Normal mantissa exponent) :
    UnpackedFloat.roundWithAccuracy Format.binary64 .positive mantissa exponent .exact =
      .finite .positive mantissa exponent h.pos := by
  simpa using h.roundWithAccuracy_eq 0

/-- A number whose significand takes all bits is stored and read back. -/
theorem unpack_pack (h : Normal mantissa exponent) :
    UnpackedFloat.unpack Format.binary64
      (UnpackedFloat.pack Format.binary64 (.finite .positive mantissa exponent h.pos)) =
        .finite .positive mantissa exponent h.pos := by
  have hlow := h.low
  have hhigh := h.high
  have hleast := h.least
  have hgreatest := h.greatest
  have hbits : (UnpackedFloat.pack Format.binary64
      (.finite .positive mantissa exponent h.pos)).toNat =
        (exponent + 1075).toNat * 2 ^ 52 + mantissa % 2 ^ 52 := by
    have hbiased : (exponent + (Format.exponentBias Format.binary64 : Nat) +
        (Format.mantissaBitsWithoutImplicit Format.binary64 : Nat)).toNat =
          (exponent + 1075).toNat := by
      show (exponent + 1023 + 52).toNat = _
      omega
    have hfinite : ¬2 ^ Format.binary64.exponentBits ≤ (exponent + 1075).toNat + 1 := by
      show ¬2 ^ 11 ≤ _
      omega
    have hfull : 52 + 1 = Format.binary64.mantissaBits := rfl
    rw [UnpackedFloat.pack]
    dsimp only
    rw [hbiased, if_neg hfinite, h.log2_eq, if_pos hfull, toNat_packComponents, BitVec.toNat_ofNat,
      BitVec.toNat_ofNat, Nat.mod_eq_of_lt (by omega)]
  have hsign := toNat_pack_lt (u := .finite .positive mantissa exponent h.pos) rfl
  obtain ⟨hx, hu⟩ | ⟨hx, hu⟩ | ⟨hx, hu⟩ | ⟨m, e, hm, hu, he, hmax, hx⟩ := unpack_cases hsign
  · omega
  · omega
  · omega
  · obtain ⟨rfl, rfl⟩ : m = mantissa ∧ e = exponent := by omega
    exact hu

end Normal

/-! ## Exact operations -/

theorem unpack_of_toBits_one {x : Float} (h : x.toBits = 0x3ff0000000000000) :
    x.toModel.unpack = .finite .positive (2 ^ 52) (-52) (by decide) := by
  rw [unpack_toModel, h]
  rfl

theorem unpack_one :
    (1.0 : Float).toModel.unpack = .finite .positive (2 ^ 52) (-52) (by decide) :=
  unpack_of_toBits_one (by decide)

theorem unpack_fractions : ((Draw.fractions : Nat) : Float).toModel.unpack =
    .finite .positive (2 ^ 52) 0 (by decide) := by
  have hbits : ((Draw.fractions : Nat) : Float).toBits = 0x4330000000000000 := by decide
  rw [unpack_toModel, hbits]
  rfl

/-- The division by a power of two leaves no remainder. -/
theorem Normal.divCore_fractions {mantissa : Nat} {exponent : Int}
    (h : Normal mantissa exponent) (hleast : -1000 ≤ exponent) :
    UnpackedFloat.divCore Format.binary64 mantissa exponent (2 ^ 52) 0 =
      (mantissa * 2 ^ 1, exponent - 52 - 1, .exact) := by
  have htarget : min (exponent - 0) (Format.binary64.targetExponent
      (Float.Model.totalExponent mantissa exponent - Float.Model.totalExponent (2 ^ 52) 0)) =
        exponent - 53 := by
    rw [Float.Model.totalExponent, Float.Model.totalExponent, h.log2_eq, Nat.log2_two_pow]
    show min (exponent - 0) (max (52 + 1 + exponent - (52 + 1 + 0) - 53) (-1074)) = _
    omega
  have hamount : (exponent - 0 - (exponent - 53)).toNat = 53 := by omega
  have hshifted : mantissa <<< 53 = mantissa * 2 ^ 1 * 2 ^ 52 := by
    rw [Nat.shiftLeft_eq, Nat.mul_assoc, ← Nat.pow_add]
  rw [UnpackedFloat.divCore, htarget, hamount, hshifted,
    Nat.mul_div_cancel _ (Nat.two_pow_pos 52), Nat.mul_mod_left, UnpackedFloat.accuracyOfFraction,
    if_pos rfl, Int.sub_sub]
  rfl

/-- Whether a double is a significand with all its bits times a power of two. -/
structure IsNormal (x : Float) (mantissa : Nat) (exponent : Int) : Prop where
  range : Normal mantissa exponent
  unpack_eq : x.toModel.unpack = .finite .positive mantissa exponent range.pos

namespace IsNormal

variable {x y : Float} {mantissa : Nat} {exponent : Int}

/-- What an operation gives is normal if it packs a normal number. -/
theorem of_pack {u : UnpackedFloat} (h : Normal mantissa exponent)
    (hu : u = .finite .positive mantissa exponent h.pos) :
    IsNormal (.ofModel (.pack u)) mantissa exponent := by
  subst hu
  exact ⟨h, h.unpack_pack⟩

/-- A whole number of at most 53 bits is a double. -/
theorem toFloat {n : Nat} {count : Nat} (hn : n ≠ 0) (hcount : n.log2 + count = 52) :
    IsNormal n.toUInt64.toFloat (n * 2 ^ count) (-count) := by
  have hhigh := Nat.lt_log2_self (n := n)
  have hnormal : Normal (n * 2 ^ count) (-count) := by
    have hbounds := bounds_shifted (Nat.log2_self_le hn) hhigh count
    rw [hcount] at hbounds
    exact ⟨hbounds.1, hbounds.2, by omega, by omega⟩
  have hsize : 2 ^ (n.log2 + 1) ≤ 2 ^ 64 := Nat.pow_le_pow_right (by omega) (by omega)
  have hword : n.toUInt64.toNat = n := UInt64.toNat_ofNat_of_lt' (hhigh.trans_le hsize)
  have hcompare : compare (n : Int) 0 = .gt := Int.compare_eq_gt.mpr (by omega)
  have htarget : Format.binary64.targetExponent (Float.Model.totalExponent n 0) = 0 - count := by
    show max ((n.log2 : Int) + 1 + 0 - 53) (-1074) = _
    omega
  refine of_pack hnormal ?_
  rw [UnpackedFloat.ofUInt64, UnpackedFloat.ofNat, UnpackedFloat.ofInt, UnpackedFloat.normalize,
    hword, hcompare]
  dsimp only
  rw [Int.toNat_natCast, UnpackedFloat.round, htarget, UnpackedFloat.decreaseExponent,
    Int.sub_sub_self, Int.toNat_natCast, Nat.shiftLeft_eq, Int.zero_sub]
  exact hnormal.roundWithAccuracy_self

theorem mul_one (h : IsNormal x mantissa exponent) (hy : y.toBits = 0x3ff0000000000000) :
    IsNormal (x * y) mantissa exponent := by
  refine of_pack (u := UnpackedFloat.mul _ x.toModel.unpack y.toModel.unpack) h.range ?_
  rw [h.unpack_eq, unpack_of_toBits_one hy]
  exact h.range.roundWithAccuracy_eq 52

/-- Dividing by the number of fractions takes 52 off the exponent. -/
theorem div_fractions (h : IsNormal x mantissa exponent) (hleast : -1000 ≤ exponent) :
    IsNormal (x / ((Draw.fractions : Nat) : Float)) mantissa (exponent - 52) := by
  have hgreatest := h.range.greatest
  have hnormal : Normal mantissa (exponent - 52) := ⟨h.range.low, h.range.high, by omega, by omega⟩
  refine of_pack (u := UnpackedFloat.div _ x.toModel.unpack _) hnormal ?_
  rw [h.unpack_eq, unpack_fractions, UnpackedFloat.div]
  simp only [h.range.divCore_fractions hleast]
  exact hnormal.roundWithAccuracy_eq 1

end IsNormal

/-! ## Drawn fractions -/

theorem lt_iff_unpack {x y : Float} :
    x < y ↔ x.toModel.unpack.lt y.toModel.unpack = true := decide_eq_true_iff

/-- A fraction that is not zero is normal, and its exponent below that of one. -/
theorem isNormal_fraction {n : Nat} (hn : n ≠ 0) (hlt : n < Draw.fractions) :
    ∃ mantissa exponent, exponent < -52 ∧
      IsNormal (((n : Nat) : Float) / ((Draw.fractions : Nat) : Float)) mantissa exponent := by
  have hlog : n.log2 < 52 := (Nat.log2_lt hn).mpr hlt
  obtain ⟨count, hcount⟩ : ∃ count, n.log2 + count = 52 := ⟨52 - n.log2, by omega⟩
  have hcast : ((n : Nat) : Float) =
      n.toUInt64.toFloat * Float.exactlyRepresentablePowersOfTen[0] := by
    have hfast : n < 2 ^ 53 ∧ 0 ≤ 22 := by
      have : n < 0x10000000000000 := hlt
      omega
    show Float.ofScientific n false 0 = _
    rw [Float.ofScientific, dif_pos hfast]
    rfl
  have hwhole := (IsNormal.toFloat hn hcount).mul_one
    (y := Float.exactlyRepresentablePowersOfTen[0]) (by decide)
  rw [← hcast] at hwhole
  exact ⟨_, _, by omega, hwhole.div_fractions (by omega)⟩

/-- Every fraction is below one. -/
theorem natCast_div_fractions_lt_one {n : Nat} (hlt : n < Draw.fractions) :
    ((n : Nat) : Float) / ((Draw.fractions : Nat) : Float) < 1.0 := by
  rcases Nat.eq_zero_or_pos n with rfl | hpos
  · decide
  · obtain ⟨mantissa, exponent, hexponent, hnormal⟩ := isNormal_fraction hpos.ne' hlt
    rw [lt_iff_unpack, hnormal.unpack_eq, unpack_one, UnpackedFloat.lt, beq_iff_eq]
    simp only [UnpackedFloat.compare, Option.some_inj, Ordering.then_eq_lt, Int.compare_eq_lt]
    exact .inl hexponent

theorem unsigned_fraction (n : Nat) :
    Unsigned (((n : Nat) : Float) / ((Draw.fractions : Nat) : Float)) :=
  (unsigned_natCast n).div (unsigned_natCast Draw.fractions)

/-- Equal doubles are the same or are zeros with or without a minus sign. -/
theorem unpack_of_beq {x y : Float} (h : x == y) : x.toModel.unpack = y.toModel.unpack ∨
    (∃ sign, x.toModel.unpack = .zero sign) ∧ ∃ sign, y.toModel.unpack = .zero sign := by
  have hbeq : x.toModel.unpack.beq y.toModel.unpack = true := h
  obtain ⟨-, -, heq | ⟨hx, hy⟩ | ⟨hx, hy⟩⟩ :=
    (UnpackedFloat.beq_iff_ne_notANumber_and_eq _ _).mp hbeq
  · exact .inl heq
  · exact .inr ⟨⟨_, hx⟩, _, hy⟩
  · exact .inr ⟨⟨_, hx⟩, _, hy⟩

end Number

namespace Draw

open Number

variable {σ : Type} [WordSource σ]

/-- A fraction that is drawn is one of those from zero up. -/
theorem fraction_eq (source : σ) : ∃ n < fractions,
    (fraction source).1 = ((n : Nat) : Float) / ((fractions : Nat) : Float) := by
  refine ⟨((WordSource.next source).1 >>> 12).toNat, ?_, rfl⟩
  have hword := (WordSource.next source).1.toNat_lt_size
  rw [UInt64.toNat_shiftRight, Nat.shiftRight_eq_div_pow]
  exact Nat.div_lt_of_lt_mul hword

/-- No fraction is below zero, whatever the sign of the zero. -/
theorem not_fraction_lt_zero {probability : Float} (h : probability == 0.0) (source : σ) :
    ¬(fraction source).1 < probability := by
  obtain ⟨n, -, hfraction⟩ := fraction_eq source
  have hzero : ∃ sign, probability.toModel.unpack = .zero sign := by
    rcases unpack_of_beq h with heq | ⟨hzero, -⟩
    · exact ⟨.positive, heq.trans unpack_zero⟩
    · exact hzero
  obtain ⟨sign, hsign⟩ := hzero
  have hnominus := (unsigned_fraction n).noMinus
  rw [hfraction, lt_iff_unpack, hsign]
  cases hu : (((n : Nat) : Float) / ((fractions : Nat) : Float)).toModel.unpack <;>
    rw [hu] at hnominus <;> cases hnominus <;> simp [UnpackedFloat.lt, UnpackedFloat.compare]

/-- Every fraction is below one. -/
theorem fraction_lt_one {probability : Float} (h : probability == 1.0) (source : σ) :
    (fraction source).1 < probability := by
  obtain ⟨n, hn, hfraction⟩ := fraction_eq source
  have hone : probability.toModel.unpack = (1.0 : Float).toModel.unpack := by
    rcases unpack_of_beq h with heq | ⟨-, sign, hzero⟩
    · exact heq
    · rw [unpack_one] at hzero
      cases hzero
  rw [hfraction, lt_iff_unpack, hone]
  exact lt_iff_unpack.mp (natCast_div_fractions_lt_one hn)

end Draw

end CorpusCost
