import Edict.Evaluation.Operators
import Mathlib

namespace Edict

open Float.Model (Format UnpackedFloat)
open Float.Model.UnpackedFloat (Sign packComponents unpackExponent unpackMantissa isNaNBits)

/-! # When floats are found equal

Floats count as equal if the magnitude of their difference is no more than the step behind one.
Taken one from the other, two unpacked floats differ the other way round in the sign alone, rounding
included, and packing keeps signs apart from the rest; so it makes no difference which float is
taken from which.  A number less itself is zero; an infinity less itself is no number, which is not
small.

Main statements: `floatEq_comm` and `floatEq_self`.
-/

/-! ## Signs -/

/-- An unpacked float without its sign. -/
def withoutSign : UnpackedFloat → UnpackedFloat
  | .notANumber => .notANumber
  | .infinity _ => .infinity .positive
  | .zero _ => .zero .positive
  | .finite _ m e hm => .finite .positive m e hm

theorem withoutSign_finite (s : Sign) (m : Nat) (e : Int) (hm : 0 < m) :
    withoutSign (.finite s m e hm) = .finite .positive m e hm := rfl

section

variable {spec : Format}

/-- Rounding does not look at the sign. -/
theorem withoutSign_round (s s' : Sign) (m : Nat) (e : Int) :
    withoutSign (.round spec s m e) = withoutSign (.round spec s' m e) := by
  unfold UnpackedFloat.round UnpackedFloat.roundWithAccuracy
  dsimp only
  split
  · rfl
  · rfl

/-- Nor does bringing a number into normal form. -/
theorem withoutSign_normalize_neg (m e : Int) (zeroSign : Sign) :
    withoutSign (.normalize spec (-m) e zeroSign) = withoutSign (.normalize spec m e zeroSign) := by
  unfold UnpackedFloat.normalize
  rcases lt_trichotomy m 0 with h | rfl | h
  · rw [Int.compare_eq_lt.mpr h, Int.compare_eq_gt.mpr (by omega)]
    exact withoutSign_round _ _ _ _
  · rfl
  · rw [Int.compare_eq_gt.mpr h, Int.compare_eq_lt.mpr (by omega), Int.neg_neg]
    exact withoutSign_round _ _ _ _

/-! ## Differences -/

/-- Two numbers are as far apart as they are the other way round. -/
theorem withoutSign_sub_comm (x y : UnpackedFloat) :
    withoutSign (.sub spec x y) = withoutSign (.sub spec y x) := by
  cases x with
  | notANumber => cases y <;> rfl
  | infinity s =>
    cases y with
    | infinity s' => cases s <;> cases s' <;> rfl
    | _ => rfl
  | zero s =>
    cases y with
    | zero s' => cases s <;> cases s' <;> rfl
    | _ => rfl
  | finite s m e hm =>
    cases y with
    | finite s' m' e' hm' =>
      simp only [UnpackedFloat.sub]
      rw [min_comm e' e, ← Int.neg_sub, withoutSign_normalize_neg]
    | _ => rfl

def isNumber : UnpackedFloat → Bool
  | .zero _ | .finite _ _ _ _ => true
  | .infinity _ | .notANumber => false

/-- A number less itself is zero, and anything else less itself is no number. -/
theorem difference_self (x : UnpackedFloat) :
    UnpackedFloat.sub spec x x = if isNumber x then .zero .positive else .notANumber := by
  cases x with
  | notANumber => rfl
  | infinity s => cases s <;> rfl
  | zero s => cases s <;> rfl
  | finite s m e hm =>
    simp only [UnpackedFloat.sub, Int.sub_self]
    rfl

/-! ## Packing -/

theorem withoutSign_unpack_packComponents (s : Sign) (exponent : BitVec spec.exponentBits)
    (mantissa : BitVec spec.mantissaBitsWithoutImplicit) :
    withoutSign (.unpack spec (packComponents spec s exponent mantissa))
      = .unpack spec (packComponents spec .positive exponent mantissa) := by
  unfold UnpackedFloat.unpack
  simp only [UnpackedFloat.unpackExponent_packComponents,
    UnpackedFloat.unpackMantissa_packComponents, UnpackedFloat.unpackSign_packComponents,
    UnpackedFloat.Sign.ofBitVec_toBitVec]
  split
  · split <;> rfl
  · split
    · split <;> rfl
    · rfl

/-- Clearing the sign may be done before a float is packed or after it is unpacked. -/
theorem withoutSign_unpack_pack (x : UnpackedFloat) :
    withoutSign (.unpack spec (UnpackedFloat.pack spec x))
      = .unpack spec (UnpackedFloat.pack spec (withoutSign x)) := by
  cases x with
  | notANumber | infinity _ | zero _ => exact withoutSign_unpack_packComponents _ _ _
  | finite s m e hm =>
    simp only [UnpackedFloat.pack, withoutSign_finite]
    split
    · exact withoutSign_unpack_packComponents _ _ _
    · split
      · exact withoutSign_unpack_packComponents _ _ _
      · exact withoutSign_unpack_packComponents _ _ _

/-- The bits of what is no number are unpacked to no number, and no other bits are. -/
theorem isNaNBits_iff (b : BitVec spec.numBits) :
    isNaNBits b = true ↔ UnpackedFloat.unpack spec b = .notANumber := by
  simp only [isNaNBits, decide_eq_true_iff]
  unfold UnpackedFloat.unpack
  dsimp only
  constructor
  · rintro ⟨hexponent, hmantissa⟩
    rw [if_pos hexponent, if_neg hmantissa]
  · intro h
    split at h
    · next hexponent =>
      split at h
      · cases h
      · next hmantissa => exact ⟨hexponent, hmantissa⟩
    · split at h
      · split at h
        · cases h
        · cases h
      · cases h

end

namespace Binary32

/-! ## Floats of 32 bits -/

/-- The float as arithmetic takes it apart. -/
def number (v : Binary32) : UnpackedFloat := .unpack Format.binary32 v.bits.toBitVec

/-- What a float stands for is what its bits are unpacked to. -/
theorem unpack_toFloat (v : Binary32) : v.toFloat.toModel.unpack = v.number := by
  show UnpackedFloat.unpack Format.binary32
    (UnpackedFloat.pack Format.binary32 (.unpack Format.binary32 v.bits.toBitVec)) = _
  rw [UnpackedFloat.pack_unpack]
  split
  · next h => rw [number, (isNaNBits_iff _).mp h, UnpackedFloat.unpack_packedNaN]
  · rfl

theorem number_invalid : invalid.number = .notANumber := by rfl

/-- The bits of a computed float stand for what it is. -/
theorem number_ofFloat (v : Float32) : (ofFloat v).number = v.toModel.unpack := by
  unfold ofFloat
  split
  · next h => exact number_invalid.trans (UnpackedFloat.isNaN_iff.mp h).symm
  · rfl

/-- Clearing the leading bit leaves the other two parts. -/
theorem clear_sign (b : BitVec Format.binary32.numBits) :
    b &&& 0x7fffffff#32
      = packComponents Format.binary32 .positive (unpackExponent b) (unpackMantissa b) := by
  rw [UnpackedFloat.unpackExponent_def, UnpackedFloat.unpackMantissa_def]
  apply BitVec.eq_of_toNat_eq
  show b.toNat &&& (2 ^ 31 - 1) = (0 <<< 8 ||| b.toNat >>> 23 % 2 ^ 8) <<< 23 ||| b.toNat % 2 ^ 23
  rw [Nat.and_two_pow_sub_one_eq_mod, Nat.zero_shiftLeft, Nat.zero_or,
    ← Nat.shiftLeft_add_eq_or_of_lt (Nat.mod_lt _ (by decide)), Nat.shiftLeft_eq,
    Nat.shiftRight_eq_div_pow]
  omega

/-- The magnitude of a float stands for its number without the sign. -/
theorem number_abs (v : Binary32) : v.abs.number = withoutSign v.number := by
  have hbits : v.abs.bits.toBitVec = v.bits.toBitVec &&& 0x7fffffff#32 := rfl
  have hparts := @UnpackedFloat.packComponents_unpackSign_unpackExponent_unpackMantissa
    Format.binary32 v.bits.toBitVec
  rw [number, hbits, clear_sign, number, ← withoutSign_unpack_packComponents, hparts]

/-- The exponent has all bits set in infinities and in what is no number. -/
theorem unpackExponent_eq_iff (v : Binary32) :
    @unpackExponent Format.binary32 v.bits.toBitVec = -1#8
      ↔ v.bits.toNat / hiddenBit % 256 = 255 := by
  rw [UnpackedFloat.unpackExponent_def, ← BitVec.toNat_inj, BitVec.extractLsb'_toNat,
    Nat.shiftRight_eq_div_pow]
  exact Iff.rfl

theorem unpackMantissa_eq_iff (v : Binary32) :
    @unpackMantissa Format.binary32 v.bits.toBitVec = 0#23
      ↔ v.bits.toNat % hiddenBit = 0 := by
  rw [UnpackedFloat.unpackMantissa_def, ← BitVec.toNat_inj, BitVec.extractLsb'_toNat]
  exact Iff.rfl

/-- Two ways to tell that a float is no number. -/
theorem number_eq_notANumber_iff (v : Binary32) : v.number = .notANumber ↔ v.isNaN = true := by
  rw [number, ← isNaNBits_iff, isNaNBits, decide_eq_true_iff, unpackExponent_eq_iff, ne_eq,
    unpackMantissa_eq_iff]
  simp only [isNaN, unpack]
  split
  · split
    · simp_all
    · simp_all
  · split
    · simp_all
    · simp_all

/-- A float is finite if not all bits of its exponent are set. -/
theorem isFinite_iff (v : Binary32) :
    v.isFinite = true ↔ v.bits.toNat / hiddenBit % 256 ≠ 255 := by
  simp only [isFinite, unpack]
  by_cases hspecial : v.bits.toNat / hiddenBit % 256 = 255
  · rw [if_pos hspecial]
    split
    · next h => split at h <;> cases h
    · simp [hspecial]
  · rw [if_neg hspecial]
    split
    · simp [hspecial]
    · next h => split at h <;> exact absurd rfl (h _ _ _)

/-- A float stands for a finite number just if it is finite. -/
theorem isNumber_number (v : Binary32) : isNumber v.number = v.isFinite := by
  rw [Bool.eq_iff_iff, isFinite_iff, ne_eq, ← unpackExponent_eq_iff, number]
  unfold UnpackedFloat.unpack
  dsimp only
  split
  · next hspecial =>
    split
    · exact iff_of_false Bool.false_ne_true (not_not_intro hspecial)
    · exact iff_of_false Bool.false_ne_true (not_not_intro hspecial)
  · next hordinary =>
    split
    · split
      · exact iff_of_true rfl hordinary
      · exact iff_of_true rfl hordinary
    · exact iff_of_true rfl hordinary

/-- What arithmetic hands on stays no number. -/
theorem number_quiet {v : Binary32} (h : v.isNaN = true) : v.quiet.number = .notANumber := by
  have hexponent : BitVec.extractLsb' 23 8 0x400000#32 = 0#8 := by decide
  have hmantissa : BitVec.extractLsb' 0 23 0x400000#32 ≠ 0#23 := by decide
  have hbits : v.quiet.bits.toBitVec = v.bits.toBitVec ||| 0x400000#32 := rfl
  rw [← number_eq_notANumber_iff, number, ← isNaNBits_iff, isNaNBits, decide_eq_true_iff] at h
  rw [number, ← isNaNBits_iff, isNaNBits, decide_eq_true_iff, hbits]
  rw [UnpackedFloat.unpackExponent_def, UnpackedFloat.unpackMantissa_def] at h ⊢
  rw [BitVec.extractLsb'_or, BitVec.extractLsb'_or, hexponent, BitVec.or_zero]
  refine ⟨h.1, fun h' => hmantissa (BitVec.or_eq_zero_iff.mp h').2⟩

/-- What is no number has no difference from anything. -/
theorem sub_notANumber (x : UnpackedFloat) :
    UnpackedFloat.sub Format.binary32 x .notANumber = .notANumber := by
  cases x <;> rfl

theorem notANumber_sub (x : UnpackedFloat) :
    UnpackedFloat.sub Format.binary32 .notANumber x = .notANumber := by
  cases x <;> rfl

/-- The difference of two floats is the rounded difference of what they stand for. -/
theorem number_sub (a b : Binary32) :
    (a - b).number = .unpack Format.binary32
      (UnpackedFloat.pack Format.binary32 (.sub Format.binary32 a.number b.number)) := by
  show (operate (· - ·) a b).number = _
  unfold operate firstNaN?
  split
  · next h =>
    rw [Option.getD_some, number_quiet h, (number_eq_notANumber_iff a).mpr h, notANumber_sub]
    exact UnpackedFloat.unpack_packedNaN.symm
  · split
    · next h =>
      rw [Option.getD_some, number_quiet h, (number_eq_notANumber_iff b).mpr h, sub_notANumber]
      exact UnpackedFloat.unpack_packedNaN.symm
    · rw [Option.getD_none, number_ofFloat, ← unpack_toFloat, ← unpack_toFloat]
      rfl

/-- Floats are equal if what they differ by is small, whatever its sign. -/
theorem floatEq_iff (a b : Binary32) :
    floatEq a b = true ↔ (UnpackedFloat.unpack Format.binary32 (UnpackedFloat.pack Format.binary32
      (withoutSign (.sub Format.binary32 a.number b.number)))).le epsilon.number = true := by
  rw [← withoutSign_unpack_pack, ← number_sub, ← number_abs, ← unpack_toFloat, ← unpack_toFloat,
    floatEq, decide_eq_true_iff]
  show decide ((a - b).abs.toFloat.toModel ≤ epsilon.toFloat.toModel) = true ↔ _
  exact decide_eq_true_iff

/-- Whether floats count as equal does not depend on their order. -/
theorem floatEq_comm (a b : Binary32) : floatEq a b = floatEq b a := by
  rw [Bool.eq_iff_iff, floatEq_iff, floatEq_iff, withoutSign_sub_comm]

/-- A float is equal to itself exactly if it is a number: an infinity less itself is none. -/
theorem floatEq_self (v : Binary32) : floatEq v v = v.isFinite := by
  rw [Bool.eq_iff_iff, floatEq_iff, difference_self, isNumber_number]
  cases v.isFinite with
  | true => decide
  | false => decide

end Binary32

end Edict
