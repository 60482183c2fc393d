import Edict.Decimal
import Mathlib.Algebra.Order.Field.Power
import Mathlib.Data.Rat.Cast.Order
import Mathlib.Tactic.FieldSimp
import Mathlib.Tactic.Linarith
import Mathlib.Tactic.NormNum
import Mathlib.Tactic.Ring

namespace Edict.Decimal

open Binary32

/-! # The decimals that round to a float

The digits that are chosen for a float are a decimal in the interval of those that round to it, and
there is always one to choose.  The intervals of two floats have no number in common, so the digits
tell the floats apart.

Main statements:

* `holds_shortest`: the digits of a float lie in its interval;
* `eq_of_holds`: a number lies in the interval of one float at most.
-/

/-! ## Numbers in an interval -/

/-- The number that digits and an exponent stand for. -/
def Digits.value (d : Digits) : ℚ := d.coefficient * 10 ^ d.exponent

/-- The number lies in the interval, whose ends belong to it or do not. -/
structure Interval.Holds (i : Interval) (x : ℚ) : Prop where
  low : i.low * 2 ^ i.q ≤ x
  high : x ≤ i.high * 2 ^ i.q
  inside : i.closed = false → i.low * 2 ^ i.q < x ∧ x < i.high * 2 ^ i.q

theorem two_zpow_pos (q : Int) : (0 : ℚ) < 2 ^ q := zpow_pos (by norm_num) q

theorem ten_zpow_pos (k : Int) : (0 : ℚ) < 10 ^ k := zpow_pos (by norm_num) k

theorem power_pos {base : Nat} (h : 0 < base) (k : Int) : 0 < power base k := Nat.pow_pos h

/-- A power with a whole exponent is the power, and one with any other is one. -/
theorem power_of_nonneg (base : Nat) {k : Int} (h : 0 ≤ k) : (power base k : ℚ) = (base : ℚ) ^ k := by
  obtain ⟨n, rfl⟩ := Int.eq_ofNat_of_zero_le h
  simp [power]

theorem power_of_nonpos (base : Nat) {k : Int} (h : k ≤ 0) : power base k = 1 := by
  have hzero : k.toNat = 0 := by omega
  rw [power, hzero]
  rfl

/-- A power with any exponent is the quotient of two whole numbers. -/
theorem power_eq {base : Nat} (hbase : 0 < base) (k : Int) :
    (power base k : ℚ) = (base : ℚ) ^ k * power base (-k) := by
  have hne : (base : ℚ) ≠ 0 := by exact_mod_cast hbase.ne'
  rcases le_total 0 k with hk | hk
  · rw [power_of_nonneg base hk, power_of_nonpos base (by omega), Nat.cast_one, mul_one]
  · rw [power_of_nonneg base (by omega : 0 ≤ -k), power_of_nonpos base hk, ← zpow_add₀ hne]
    simp

namespace Interval

variable {i : Interval} {k : Int} {c x : Nat}

/-- Neither factor is zero. -/
theorem factors_pos (i : Interval) (k : Int) : 0 < (i.factors k).1 ∧ 0 < (i.factors k).2 := by
  constructor
  · exact Nat.mul_pos (power_pos (by decide) _) (power_pos (by decide) _)
  · exact Nat.mul_pos (power_pos (by decide) _) (power_pos (by decide) _)

/-- The two factors are as `2^q` and `10^k`. -/
theorem factors_eq (i : Interval) (k : Int) :
    ((i.factors k).1 : ℚ) * 10 ^ k = (i.factors k).2 * 2 ^ i.q := by
  simp only [factors]
  push_cast
  rw [power_eq (by decide : 0 < 2) i.q, power_eq (by decide : 0 < 10) k]
  push_cast
  ring

/-- The two factors bring both numbers to the same scale. -/
theorem mul_factors_eq (i : Interval) (k : Int) (x : ℚ) :
    x * (i.factors k).1 * 10 ^ k = x * 2 ^ i.q * (i.factors k).2 := by
  rw [mul_assoc, factors_eq]
  ring

/-- Comparing a multiple of `2^q` with one of `10^k` in whole numbers. -/
theorem mul_factors_le_iff : x * (i.factors k).1 ≤ c * (i.factors k).2 ↔
    (x : ℚ) * 2 ^ i.q ≤ c * 10 ^ k := by
  have hpos : (0 : ℚ) < (i.factors k).2 := by exact_mod_cast (factors_pos i k).2
  calc x * (i.factors k).1 ≤ c * (i.factors k).2
      ↔ (x : ℚ) * (i.factors k).1 ≤ c * (i.factors k).2 := by exact_mod_cast Iff.rfl
    _ ↔ (x : ℚ) * (i.factors k).1 * 10 ^ k ≤ c * (i.factors k).2 * 10 ^ k :=
      (mul_le_mul_iff_left₀ (ten_zpow_pos k)).symm
    _ ↔ (x : ℚ) * 2 ^ i.q * (i.factors k).2 ≤ c * 10 ^ k * (i.factors k).2 := by
      rw [mul_factors_eq, mul_right_comm (c : ℚ)]
    _ ↔ (x : ℚ) * 2 ^ i.q ≤ c * 10 ^ k := mul_le_mul_iff_left₀ hpos

/-- So a comparison in whole numbers is one of the numbers themselves. -/
theorem le_mul_factors_iff : c * (i.factors k).2 ≤ x * (i.factors k).1 ↔
    (c : ℚ) * 10 ^ k ≤ x * 2 ^ i.q := by
  have hpos : (0 : ℚ) < (i.factors k).2 := by exact_mod_cast (factors_pos i k).2
  calc c * (i.factors k).2 ≤ x * (i.factors k).1
      ↔ (c : ℚ) * (i.factors k).2 ≤ x * (i.factors k).1 := by exact_mod_cast Iff.rfl
    _ ↔ (c : ℚ) * (i.factors k).2 * 10 ^ k ≤ x * (i.factors k).1 * 10 ^ k :=
      (mul_le_mul_iff_left₀ (ten_zpow_pos k)).symm
    _ ↔ (c : ℚ) * 10 ^ k * (i.factors k).2 ≤ x * 2 ^ i.q * (i.factors k).2 := by
      rw [mul_factors_eq, mul_right_comm (c : ℚ)]
    _ ↔ (c : ℚ) * 10 ^ k ≤ x * 2 ^ i.q := mul_le_mul_iff_left₀ hpos

/-- What counts as contained lies in the interval. -/
theorem holds_of_contains (h : i.contains k c = true) : i.Holds (c * 10 ^ k) := by
  unfold contains at h
  dsimp only at h
  split at h
  · next hclosed =>
    rw [Bool.and_eq_true, decide_eq_true_iff, decide_eq_true_iff, mul_factors_le_iff,
      le_mul_factors_iff] at h
    exact ⟨h.1, h.2, fun hopen => by rw [hclosed] at hopen; cases hopen⟩
  · rw [Bool.and_eq_true, decide_eq_true_iff, decide_eq_true_iff, ← not_le, ← not_le,
      mul_factors_le_iff, le_mul_factors_iff, not_le, not_le] at h
    exact ⟨h.1.le, h.2.le, fun _ => h⟩

/-- What lies strictly between the ends is contained, whether these are or not. -/
theorem contains_of_lt (hlow : i.low * (i.factors k).1 < c * (i.factors k).2)
    (hhigh : c * (i.factors k).2 < i.high * (i.factors k).1) : i.contains k c = true := by
  unfold contains
  dsimp only
  split
  · simp [hlow.le, hhigh.le]
  · simp [hlow, hhigh]

/-! ## One grid after the other -/

/-- What is found on a grid lies in the interval. -/
theorem holds_of_onGrid? {d : Digits} (h : i.onGrid? k = some d) : i.Holds d.value := by
  unfold onGrid? at h
  dsimp only at h
  split at h
  · cases h
  · split at h
    · next hfloor hnext =>
      split at h
      · cases h
        exact holds_of_contains hfloor
      · cases h
        exact holds_of_contains hnext
    · next hfloor _ =>
      cases h
      exact holds_of_contains hfloor
    · next _ hnext =>
      cases h
      exact holds_of_contains hnext
    · cases h

/-- A grid that is finer than the interval has a multiple for the float. -/
theorem onGrid?_ne_none (hlow : i.low < i.mid) (hhigh : i.mid < i.high)
    (hfine : (i.factors k).2 ≤ (i.factors k).1) : i.onGrid? k ≠ none := by
  have hcontains := @contains_of_lt i k
  have hpos := i.factors_pos k
  unfold onGrid?
  generalize i.factors k = factors at hcontains hpos hfine ⊢
  rcases factors with ⟨a, b⟩
  dsimp only at hcontains hpos hfine ⊢
  -- The grid point below the float is nearer to it than the grid is wide.
  have hpoint : i.mid * a / b * b + i.mid * a % b = i.mid * a := Nat.div_add_mod' _ _
  have hrest : i.mid * a % b < b := Nat.mod_lt _ hpos.2
  have hbelow : (i.low + 1) * a ≤ i.mid * a := Nat.mul_le_mul_right a hlow
  rw [Nat.succ_mul] at hbelow
  have habove : i.mid * a < i.high * a := Nat.mul_lt_mul_of_pos_right hhigh hpos.1
  have hfloor : i.mid * a / b ≠ 0 := by
    intro hzero
    rw [hzero, Nat.zero_mul] at hpoint
    omega
  rw [if_neg hfloor, hcontains (by omega) (by omega)]
  split
  · split
    · simp
    · simp
  · simp
  · simp_all
  · simp_all

/-- So does what is found on any of the grids. -/
theorem holds_of_onGrids? {n : Nat} {d : Digits} (h : i.onGrids? n k = some d) :
    i.Holds d.value := by
  induction n generalizing k with
  | zero => cases h
  | succ n ih =>
    rw [onGrids?] at h
    cases hgrid : i.onGrid? k with
    | none =>
      rw [hgrid] at h
      exact ih h
    | some d' =>
      rw [hgrid] at h
      cases h
      exact holds_of_onGrid? hgrid

/-- One grid with a multiple for the float is enough. -/
theorem onGrids?_ne_none {n j : Nat} (hj : j < n) (h : i.onGrid? (k - j) ≠ none) :
    i.onGrids? n k ≠ none := by
  induction n generalizing k j with
  | zero => exact absurd hj (Nat.not_lt_zero j)
  | succ n ih =>
    rw [onGrids?]
    cases hgrid : i.onGrid? k with
    | some d => simp
    | none =>
      cases j with
      | zero =>
        rw [Nat.cast_zero, sub_zero] at h
        exact absurd hgrid h
      | succ j =>
        refine ih (Nat.lt_of_succ_lt_succ hj) ?_
        have hnext : k - 1 - (j : Int) = k - ((j + 1 : Nat) : Int) := by
          push_cast
          omega
        rwa [hnext]

end Interval

/-! ## The digits of a float -/

section

variable {m : Nat} {q : Int}

/-- The finest grid is finer than the smallest floats are apart. -/
theorem factors_around_le (hq : leastExponent ≤ q) :
    ((Interval.around m q).factors (-54)).2 ≤ ((Interval.around m q).factors (-54)).1 := by
  have hexponent : (-(q - 2)).toNat ≤ 151 := by
    unfold leastExponent at hq
    omega
  calc power 2 (-(q - 2)) * power 10 (-54)
      = 2 ^ (-(q - 2)).toNat := by rw [power_of_nonpos 10 (by decide), mul_one]; rfl
    _ ≤ 2 ^ 151 := Nat.pow_le_pow_right (by decide) hexponent
    _ ≤ 1 * 10 ^ 54 := by norm_num
    _ ≤ power 2 (q - 2) * power 10 (-(-54)) :=
      Nat.mul_le_mul (power_pos (by decide) _) (Nat.le_refl _)

/-- Below the interval reaches half a unit, or a quarter where the floats lie denser there. -/
theorem low_around_cases (m : Nat) (q : Int) :
    (m = hiddenBit ∧ leastExponent < q ∧ (Interval.around m q).low = 4 * m - 1) ∨
      ((m = hiddenBit → q ≤ leastExponent) ∧ (Interval.around m q).low = 4 * m - 2) := by
  simp only [Interval.around]
  split
  · next h => exact .inl ⟨h.1, h.2, rfl⟩
  · next h => exact .inr ⟨fun hm => not_lt.mp fun hq => h ⟨hm, hq⟩, rfl⟩

/-- The interval begins below the float. -/
theorem low_around_lt (hm : 0 < m) (q : Int) : (Interval.around m q).low < 4 * m := by
  rcases low_around_cases m q with ⟨-, -, hlow⟩ | ⟨-, hlow⟩ <;> omega

/-- The finest grid has a multiple for every float but zero. -/
theorem onGrid?_around (hm : 0 < m) (hq : leastExponent ≤ q) :
    (Interval.around m q).onGrid? (-54) ≠ none := by
  have hhigh : 4 * m < 4 * m + 2 := by omega
  exact Interval.onGrid?_ne_none (low_around_lt hm q) hhigh (factors_around_le hq)

/-- Taking zeros off the end does not change the number. -/
theorem value_trim (d : Digits) : d.trim.value = d.value := by
  unfold Digits.trim
  split
  · next h =>
    have hten : (d.coefficient : ℚ) = 10 * (d.coefficient / 10 : Nat) := by
      have hmul : d.coefficient = 10 * (d.coefficient / 10) := by omega
      exact_mod_cast hmul
    rw [Digits.value, Digits.value, hten, zpow_add_one₀ (by norm_num)]
    ring
  · rfl

/-- The digits that are chosen for a float round to it. -/
theorem holds_shortest (hq : leastExponent ≤ q) :
    (Interval.around m q).Holds (shortest m q).value := by
  unfold shortest
  split
  · next hm =>
    subst hm
    have hzero : (Digits.value ⟨0, 0⟩) = 0 := by simp [Digits.value]
    rw [hzero]
    have hhigh : (0 : ℚ) ≤ (2 : Nat) * 2 ^ (q - 2) := mul_nonneg (by norm_num) (two_zpow_pos _).le
    exact ⟨by simp [Interval.around], hhigh, fun hopen => by cases hopen⟩
  · next hm =>
    have hgrids : (Interval.around m q).onGrids? 93 38 ≠ none :=
      Interval.onGrids?_ne_none (by decide : 92 < 93) (onGrid?_around (Nat.pos_of_ne_zero hm) hq)
    rcases Option.ne_none_iff_exists'.mp hgrids with ⟨d, hd⟩
    rw [hd, Option.map_some, Option.getD_some, value_trim]
    exact Interval.holds_of_onGrids? hd

/-! ## Intervals of different floats -/

/-- The mantissa and the exponent of a float: a mantissa has as many bits as fit, but for the
smallest floats, and these have the least exponent. -/
structure Canonical (m : Nat) (q : Int) : Prop where
  lt : m < 2 * hiddenBit
  least : leastExponent ≤ q
  hidden : leastExponent < q → hiddenBit ≤ m

/-- How the bits of a finite float are read. -/
theorem unpack_cases {v : Binary32} {negative : Bool} (h : v.unpack = .finite negative m q) :
    negative = v.isNegative ∧
      ((v.bits.toNat / hiddenBit % 256 = 0 ∧ m = v.bits.toNat % hiddenBit ∧ q = leastExponent) ∨
        (0 < v.bits.toNat / hiddenBit % 256 ∧ m = hiddenBit + v.bits.toNat % hiddenBit ∧
          q = leastExponent + (v.bits.toNat / hiddenBit % 256 : Nat) - 1)) := by
  unfold unpack at h
  dsimp only at h
  split at h
  · split at h
    · cases h
    · cases h
  · split at h
    · next hexponent =>
      cases h
      exact ⟨rfl, .inl ⟨hexponent, rfl, rfl⟩⟩
    · next hexponent =>
      cases h
      exact ⟨rfl, .inr ⟨Nat.pos_of_ne_zero hexponent, rfl, rfl⟩⟩

/-- The sign of an infinity is its sign bit. -/
theorem isNegative_of_infinite {v : Binary32} {negative : Bool}
    (h : v.unpack = .infinite negative) : negative = v.isNegative := by
  unfold unpack at h
  dsimp only at h
  split at h
  · split at h
    · cases h
      rfl
    · cases h
  · split at h
    · cases h
    · cases h

/-- A float is unpacked to the magnitude that no other float has. -/
theorem canonical_of_unpack {v : Binary32} {negative : Bool}
    (h : v.unpack = .finite negative m q) : Canonical m q := by
  have hfraction : v.bits.toNat % hiddenBit < hiddenBit := Nat.mod_lt _ (by decide)
  rcases unpack_cases h with ⟨-, ⟨-, rfl, rfl⟩ | ⟨hexponent, rfl, rfl⟩⟩
  · exact ⟨by omega, le_refl _, fun hlt => absurd hlt (lt_irrefl _)⟩
  · exact ⟨by omega, by omega, fun _ => Nat.le_add_right _ _⟩

/-- A finite float is its sign, mantissa and exponent. -/
theorem eq_of_unpack {v w : Binary32} {negative : Bool} (hv : v.unpack = .finite negative m q)
    (hw : w.unpack = .finite negative m q) : v = w := by
  rcases unpack_cases hv with ⟨hsign, hv⟩
  rcases unpack_cases hw with ⟨hsign', hw⟩
  have hsame : v.isNegative = w.isNegative := hsign.symm.trans hsign'
  have hbits := v.bits.toNat_lt
  have hbits' := w.bits.toNat_lt
  have heq : v.bits.toNat = w.bits.toNat := by
    simp only [isNegative, decide_eq_decide] at hsame
    unfold signBit hiddenBit leastExponent at *
    omega
  exact congrArg Binary32.mk (UInt32.toNat_inj.mp heq)

variable {m' : Nat} {q' : Int} {x y : ℚ}

/-- Where the interval of a float ends, that of the next one starts, and one of the two leaves the
common end out. -/
theorem high_le_low (h : Canonical m q) (h' : Canonical m' q') (hlt : q < q' ∨ q = q' ∧ m < m') :
    ((Interval.around m q).high : ℚ) * 2 ^ (q - 2)
        ≤ (Interval.around m' q').low * 2 ^ (q' - 2) ∧
      (((Interval.around m q).high : ℚ) * 2 ^ (q - 2)
        = (Interval.around m' q').low * 2 ^ (q' - 2) → m % 2 = 1 ∨ m' % 2 = 1) := by
  have hscale : ∃ c : Nat, (c : ℚ) * 2 ^ (q - 2) ≤ 2 ^ (q' - 2) ∧
      4 * m + 2 ≤ c * (Interval.around m' q').low ∧
      (4 * m + 2 = c * (Interval.around m' q').low → m % 2 = 1 ∨ m' % 2 = 1) := by
    have hm := h.lt
    have hm' := h'.hidden
    have hleast := h.least
    have hlow := low_around_cases m' q'
    unfold hiddenBit leastExponent at *
    rcases hlt with hlt | ⟨rfl, hlt⟩
    · -- The next float has a longer unit, and its mantissa is a long one.
      have hdouble : (2 : ℚ) ^ (q - 2 + 1) ≤ 2 ^ (q' - 2) :=
        zpow_le_zpow_right₀ (by norm_num) (by omega)
      rw [zpow_add_one₀ (by norm_num)] at hdouble
      exact ⟨2, by push_cast; linarith, by omega, by omega⟩
    · -- The next float has the same unit.
      exact ⟨1, by simp, by omega, by omega⟩
  rcases hscale with ⟨c, hunit, hends, hodd⟩
  have hpos := two_zpow_pos (q - 2)
  have hhigh : ((Interval.around m q).high : ℚ) * 2 ^ (q - 2)
      ≤ (c * (Interval.around m' q').low : Nat) * 2 ^ (q - 2) :=
    mul_le_mul_of_nonneg_right (by exact_mod_cast hends) hpos.le
  have hlow : ((c * (Interval.around m' q').low : Nat) : ℚ) * 2 ^ (q - 2)
      ≤ (Interval.around m' q').low * 2 ^ (q' - 2) := by
    calc ((c * (Interval.around m' q').low : Nat) : ℚ) * 2 ^ (q - 2)
        = (Interval.around m' q').low * (c * 2 ^ (q - 2)) := by push_cast; ring
      _ ≤ (Interval.around m' q').low * 2 ^ (q' - 2) :=
        mul_le_mul_of_nonneg_left hunit (Nat.cast_nonneg _)
  refine ⟨hhigh.trans hlow, fun heq => hodd ?_⟩
  have hsame := le_antisymm hhigh (heq ▸ hlow)
  exact_mod_cast mul_right_cancel₀ hpos.ne' hsame

/-- What rounds to the smaller of two floats is smaller than what rounds to the larger. -/
theorem lt_of_holds (h : Canonical m q) (h' : Canonical m' q') (hlt : q < q' ∨ q = q' ∧ m < m')
    (hx : (Interval.around m q).Holds x) (hy : (Interval.around m' q').Holds y) : x < y := by
  rcases high_le_low h h' hlt with ⟨hle, hodd⟩
  have hopen : ∀ {n : Nat} {k : Int}, n % 2 = 1 → (Interval.around n k).closed = false := by
    intro n k hn
    simp [Interval.around, hn]
  rcases lt_or_eq_of_le hle with hends | hends
  · exact (hx.high.trans_lt hends).trans_le hy.low
  · rcases hodd hends with hm | hm
    · exact (hx.inside (hopen hm)).2.trans_le (hle.trans hy.low)
    · exact (hx.high.trans hle).trans_lt (hy.inside (hopen hm)).1

/-- A number lies in the interval of one float at most. -/
theorem eq_of_holds (h : Canonical m q) (h' : Canonical m' q')
    (hx : (Interval.around m q).Holds x) (hx' : (Interval.around m' q').Holds x) :
    m = m' ∧ q = q' := by
  have hbelow : ¬(q < q' ∨ q = q' ∧ m < m') := fun hlt => lt_irrefl x (lt_of_holds h h' hlt hx hx')
  have habove : ¬(q' < q ∨ q' = q ∧ m' < m) := fun hlt => lt_irrefl x (lt_of_holds h' h hlt hx' hx)
  omega

end

end Edict.Decimal
