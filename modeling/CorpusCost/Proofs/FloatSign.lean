import CorpusCost.Proofs.FloatOrder

/-!
# Doubles without a minus sign

A mean error is a sum of distances divided by their number. None of these operations brings in a
minus sign, whatever the scores are: the only zero with a minus sign that can turn up is a distance,
and a sum that begins at zero loses it.
-/

set_option autoImplicit false

namespace CorpusCost.Number

open Float.Model (UnpackedFloat Format)
open Float.Model.UnpackedFloat (Sign)

/-! ## Unpacked doubles -/

/-- Whether an unpacked double has no minus sign. -/
def NoMinus : UnpackedFloat → Prop
  | .notANumber => True
  | .infinity sign => sign = .positive
  | .zero sign => sign = .positive
  | .finite sign _ _ _ => sign = .positive

/-- Whether an unpacked double has no minus sign or is zero. -/
def NoMinusOrZero (u : UnpackedFloat) : Prop := NoMinus u ∨ ∃ sign, u = .zero sign

theorem toNat_pack_lt {u : UnpackedFloat} (hu : NoMinus u) :
    (UnpackedFloat.pack Format.binary64 u).toNat < 2 ^ 63 := by
  have hbound : ∀ (exponent : BitVec 11) (mantissa : BitVec 52),
      (UnpackedFloat.packComponents Format.binary64 .positive exponent mantissa).toNat
        < 2 ^ 63 := by
    intro exponent mantissa
    have hexponent := exponent.isLt
    have hmantissa := mantissa.isLt
    rw [toNat_packComponents]
    omega
  unfold UnpackedFloat.pack UnpackedFloat.packedNaN UnpackedFloat.packedInfinity
    UnpackedFloat.packedZero
  cases u with
  | notANumber => exact hbound _ _
  | infinity sign =>
    obtain rfl := hu
    exact hbound _ _
  | zero sign =>
    obtain rfl := hu
    exact hbound _ _
  | finite sign mantissa exponent hpos =>
    obtain rfl := hu
    dsimp only
    split
    · exact hbound _ _
    · split
      · exact hbound _ _
      · exact hbound _ _

theorem noMinus_unpack {bits : BitVec 64} (hbits : bits.toNat < 2 ^ 63) :
    NoMinus (UnpackedFloat.unpack Format.binary64 bits) := by
  obtain ⟨-, hu⟩ | ⟨-, hu⟩ | ⟨-, hu⟩ | ⟨mantissa, exponent, hpos, hu, -⟩ := unpack_cases hbits <;>
    rw [hu] <;> trivial

/-! ## Rounding -/

theorem noMinus_roundWithAccuracy (mantissa : Nat) (exponent : Int)
    (accuracy : UnpackedFloat.Accuracy) :
    NoMinus (UnpackedFloat.roundWithAccuracy Format.binary64 .positive mantissa exponent
      accuracy) := by
  unfold UnpackedFloat.roundWithAccuracy
  dsimp only
  split <;> rfl

theorem noMinus_normalize {mantissa : Int} (hmantissa : 0 ≤ mantissa) (exponent : Int) :
    NoMinus (UnpackedFloat.normalize Format.binary64 mantissa exponent .positive) := by
  unfold UnpackedFloat.normalize
  cases hcompare : compare mantissa 0 with
  | lt =>
    have hlt := Int.compare_eq_lt.mp hcompare
    omega
  | eq => rfl
  | gt => exact noMinus_roundWithAccuracy _ _ _

/-! ## Operations -/

/-- A sum has no minus sign if its first term has none and its second has none or is zero. -/
theorem noMinus_add {u v : UnpackedFloat} (hu : NoMinus u) (hv : NoMinusOrZero v) :
    NoMinus (UnpackedFloat.add Format.binary64 u v) := by
  have hsum : ∀ m n : Nat, 0 ≤ Sign.positive.apply m + Sign.positive.apply n := by
    intro m n
    exact Int.add_nonneg (Int.natCast_nonneg m) (Int.natCast_nonneg n)
  rcases hv with hv | ⟨sign, rfl⟩
  · cases u <;> cases v <;> cases hu <;> cases hv
    all_goals first | trivial | exact noMinus_normalize (hsum _ _) _
  · cases u <;> cases hu <;> cases sign <;> trivial

theorem noMinus_div {u v : UnpackedFloat} (hu : NoMinus u) (hv : NoMinus v) :
    NoMinus (UnpackedFloat.div Format.binary64 u v) := by
  cases u <;> cases v <;> cases hu <;> cases hv
  all_goals first | trivial | exact noMinus_roundWithAccuracy _ _ _

theorem noMinus_mul {u v : UnpackedFloat} (hu : NoMinus u) (hv : NoMinus v) :
    NoMinus (UnpackedFloat.mul Format.binary64 u v) := by
  cases u <;> cases v <;> cases hu <;> cases hv
  all_goals first | trivial | exact noMinus_roundWithAccuracy _ _ _

theorem noMinus_ofScientific (mantissa : Nat) (exponent : Int) :
    NoMinus (UnpackedFloat.ofScientific Format.binary64 mantissa exponent) := by
  unfold UnpackedFloat.ofScientific
  split
  · rfl
  · split
    · rfl
    · split
      · rfl
      · split
        · exact noMinus_mul rfl rfl
        · exact noMinus_div rfl rfl

/-- What a difference turns into when it is taken from zero because it is below zero. -/
theorem noMinus_zero_sub {u : UnpackedFloat}
    (hbelow : u.lt (.zero .positive) = true) :
    NoMinus (UnpackedFloat.sub Format.binary64 (.zero .positive) u) := by
  cases u with
  | notANumber => trivial
  | infinity sign => cases sign <;> first | rfl | cases hbelow
  | zero sign => cases hbelow
  | finite sign mantissa exponent hpos => cases sign <;> first | rfl | cases hbelow

/-- A double that is not below zero has no minus sign or is zero. -/
theorem noMinusOrZero_of_not_lt {u : UnpackedFloat}
    (hbelow : ¬u.lt (.zero .positive) = true) : NoMinusOrZero u := by
  cases u with
  | notANumber => exact .inl trivial
  | infinity sign => cases sign <;> first | exact .inl rfl | exact absurd rfl hbelow
  | zero sign => exact .inr ⟨sign, rfl⟩
  | finite sign mantissa exponent hpos =>
    cases sign <;> first | exact .inl rfl | exact absurd rfl hbelow

/-! ## Doubles -/

theorem Unsigned.noMinus {x : Float} (hx : Unsigned x) : NoMinus x.toModel.unpack :=
  noMinus_unpack hx

theorem unsigned_pack {u : UnpackedFloat} (hu : NoMinus u) :
    Unsigned (.ofModel (.pack u)) := toNat_pack_lt hu

theorem Unsigned.add {x y : Float} (hx : Unsigned x) (hy : NoMinusOrZero y.toModel.unpack) :
    Unsigned (x + y) := unsigned_pack (noMinus_add hx.noMinus hy)

theorem Unsigned.mul {x y : Float} (hx : Unsigned x) (hy : Unsigned y) : Unsigned (x * y) :=
  unsigned_pack (noMinus_mul hx.noMinus hy.noMinus)

theorem Unsigned.div {x y : Float} (hx : Unsigned x) (hy : Unsigned y) : Unsigned (x / y) :=
  unsigned_pack (noMinus_div hx.noMinus hy.noMinus)

theorem unsigned_toFloat (n : UInt64) : Unsigned n.toFloat :=
  unsigned_pack (noMinus_normalize (Int.natCast_nonneg n.toNat) 0)

theorem unsigned_powerOfTen : ∀ exponent : Fin Float.exactlyRepresentablePowersOfTen.size,
    Unsigned Float.exactlyRepresentablePowersOfTen[exponent] := by
  decide

/-- A decimal constant has no minus sign. -/
theorem unsigned_ofScientific (mantissa : Nat) (negative : Bool) (exponent : Nat) :
    Unsigned (OfScientific.ofScientific mantissa negative exponent) := by
  show Unsigned (Float.ofScientific mantissa negative exponent)
  unfold Float.ofScientific
  split
  · rename_i hfast
    have hpower := unsigned_powerOfTen ⟨exponent, by
      have hsize : Float.exactlyRepresentablePowersOfTen.size = 23 := rfl
      omega⟩
    dsimp only
    split
    · exact (unsigned_toFloat _).div hpower
    · exact (unsigned_toFloat _).mul hpower
  · exact unsigned_pack (noMinus_ofScientific _ _)

theorem unsigned_natCast (n : Nat) : Unsigned ((n : Nat) : Float) :=
  unsigned_ofScientific n false 0

theorem unpack_zero : (Scalar.zero : Float).toModel.unpack = .zero .positive := by
  have hbits : (Scalar.zero : Float).toBits = 0 := by decide
  rw [unpack_toModel, hbits]
  rfl

/-- A distance has no minus sign or is zero. -/
theorem noMinusOrZero_distance (x y : Float) :
    NoMinusOrZero (Scalar.distance x y).toModel.unpack := by
  have hlt : x - y < Scalar.zero ↔ (x - y).toModel.unpack.lt (.zero .positive) = true := by
    rw [← unpack_zero]
    exact decide_eq_true_iff
  unfold Scalar.distance
  split
  · rename_i hbelow
    have hsub := noMinus_zero_sub (hlt.mp hbelow)
    rw [← unpack_zero] at hsub
    exact .inl (unsigned_pack hsub).noMinus
  · rename_i hbelow
    exact noMinusOrZero_of_not_lt (mt hlt.mpr hbelow)

end CorpusCost.Number
