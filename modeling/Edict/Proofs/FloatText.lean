import Edict.Node
import Edict.Proofs.Parsed
import Edict.Proofs.Rounding

namespace Edict

open Lexer Decimal Edict.Parser

/-! # Floats and their texts

In source text a finite float is digits with a point between them.  They write a number that rounds
to this float and to no other one, so no two of them have the same text.  There is a minus sign in
front of some, and a text that was read from a literal has none, as literals have no sign.

Main statements:

* `isNegative_of_floatLiteral?`: a literal that starts with a digit stands for a float without a
  sign;
* `exists_spells_magnitude`: the text of a magnitude, and the number that it writes;
* `eq_of_text_eq`: two finite floats that have the same text are the same.
-/

/-! ## Literals have no sign

Arithmetic on floats works on unpacked ones: a sign, a mantissa and an exponent, or one of the
values that have none.  A literal is the quotient or the product of a whole number and a power of
ten, and where neither has a sign, no rounding and no overflow gives them one. -/

section

open Float.Model (Format UnpackedFloat)
open Float.Model.UnpackedFloat

/-- Whether an unpacked float is no number or has no minus sign. -/
def Unsigned : UnpackedFloat → Prop
  | .infinity sign | .zero sign | .finite sign _ _ _ => sign = .positive
  | .notANumber => True

variable {a b : UnpackedFloat}

/-! ### Packed floats -/

/-- The bit of the sign is the leading one. -/
theorem msb_packComponents {spec : Format} (exponent : BitVec spec.exponentBits)
    (mantissa : BitVec spec.mantissaBitsWithoutImplicit) :
    (packComponents spec .positive exponent mantissa).msb = false := by
  simp [packComponents, Sign.toBitVec, BitVec.msb_append]

/-- The sign bit of a float that is packed is its sign. -/
theorem msb_pack {spec : Format} (h : Unsigned a) : (pack spec a).msb = false := by
  cases a with
  | notANumber => exact msb_packComponents _ _
  | infinity sign | zero sign =>
    cases h
    exact msb_packComponents _ _
  | finite sign m e hm =>
    cases h
    unfold UnpackedFloat.pack
    dsimp only
    split
    · exact msb_packComponents _ _
    · split
      · exact msb_packComponents _ _
      · exact msb_packComponents _ _

/-- A choice between unsigned floats is one. -/
theorem unsigned_dite {c : Prop} [Decidable c] {yes : c → UnpackedFloat}
    {no : ¬c → UnpackedFloat} (hyes : ∀ h, Unsigned (yes h)) (hno : ∀ h, Unsigned (no h)) :
    Unsigned (if h : c then yes h else no h) := by
  split
  · exact hyes _
  · exact hno _

theorem unsigned_unpack {spec : Format} {bits : BitVec spec.numBits} (h : bits.msb = false) :
    Unsigned (unpack spec bits) := by
  have hsign : unpackSign bits = 0#1 := by
    ext i hi
    obtain rfl : i = 0 := by omega
    have hlast : spec.mantissaBitsWithoutImplicit + spec.exponentBits = spec.numBits - 1 := by
      simp only [Format.numBits]
      omega
    rw [BitVec.msb_eq_getLsbD_last, ← hlast] at h
    delta unpackSign
    simpa using h
  unfold UnpackedFloat.unpack
  dsimp only
  rw [hsign]
  exact unsigned_dite (fun _ => unsigned_dite (fun _ => rfl) fun _ => trivial)
    fun _ => unsigned_dite (fun _ => unsigned_dite (fun _ => rfl) fun _ => rfl) fun _ => rfl

/-! ### Operations -/

/-- Rounding what is not negative gives what is not negative. -/
theorem unsigned_roundWithAccuracy (spec : Format) (m : Nat) (e : Int) (accuracy : Accuracy) :
    Unsigned (roundWithAccuracy spec .positive m e accuracy) := by
  unfold roundWithAccuracy
  exact unsigned_dite (fun _ => rfl) fun _ => rfl

theorem unsigned_ofNat (spec : Format) (n : Nat) : Unsigned (ofNat spec n) := by
  unfold UnpackedFloat.ofNat ofInt UnpackedFloat.normalize
  split
  · next h =>
    have := Int.compare_eq_lt.mp h
    omega
  · rfl
  · exact unsigned_roundWithAccuracy _ _ _ _

/-- A quotient of unsigned floats is unsigned; so is a product. -/
theorem unsigned_div {spec : Format} (ha : Unsigned a) (hb : Unsigned b) :
    Unsigned (div spec a b) := by
  cases a <;> cases b <;> cases ha <;> cases hb <;> first
    | trivial
    | rfl
    | exact unsigned_roundWithAccuracy _ _ _ _

theorem unsigned_mul {spec : Format} (ha : Unsigned a) (hb : Unsigned b) :
    Unsigned (mul spec a b) := by
  cases a <;> cases b <;> cases ha <;> cases hb <;> first
    | trivial
    | rfl
    | exact unsigned_roundWithAccuracy _ _ _ _

/-- A decimal is built from unsigned floats by products and quotients. -/
theorem unsigned_ofScientific (spec : Format) (m : Nat) (e : Int) :
    Unsigned (UnpackedFloat.ofScientific spec m e) := by
  unfold UnpackedFloat.ofScientific
  -- Zero, too large, too small, and a product or a quotient of whole numbers.
  refine unsigned_dite (fun _ => rfl) fun _ => ?_
  refine unsigned_dite (fun _ => rfl) fun _ => ?_
  refine unsigned_dite (fun _ => rfl) fun _ => ?_
  refine unsigned_dite (fun _ => ?_) fun _ => ?_
  · exact unsigned_roundWithAccuracy _ _ _ _
  · exact unsigned_roundWithAccuracy _ _ _ _

/-! ### 32-bit floats -/

/-- Whether the bit of the sign is clear. -/
def IsUnsigned (v : Float32) : Prop := v.toBits.toBitVec.msb = false

instance : DecidablePred IsUnsigned := fun _ => inferInstanceAs (Decidable (_ = false))

/-- The same on floats as they are stored. -/
theorem isUnsigned_div {v w : Float32} (hv : IsUnsigned v) (hw : IsUnsigned w) :
    IsUnsigned (v / w) :=
  msb_pack (unsigned_div (unsigned_unpack hv) (unsigned_unpack hw))

theorem isUnsigned_mul {v w : Float32} (hv : IsUnsigned v) (hw : IsUnsigned w) :
    IsUnsigned (v * w) :=
  msb_pack (unsigned_mul (unsigned_unpack hv) (unsigned_unpack hw))

theorem isUnsigned_toFloat32 (n : UInt64) : IsUnsigned n.toFloat32 :=
  msb_pack (unsigned_ofNat _ n.toNat)

/-- The table of powers of ten has no negative one. -/
theorem isUnsigned_of_mem_powersOfTen :
    ∀ v ∈ Float32.exactlyRepresentablePowersOfTen, IsUnsigned v := by
  decide +kernel

/-- A whole number and a power of ten have no sign. -/
theorem isUnsigned_ofScientific (n : Nat) (negative : Bool) (k : Nat) :
    IsUnsigned (Float32.ofScientific n negative k) := by
  have hpower : ∀ h : k < Float32.exactlyRepresentablePowersOfTen.size,
      IsUnsigned Float32.exactlyRepresentablePowersOfTen[k] :=
    fun h => isUnsigned_of_mem_powersOfTen _ (Array.getElem_mem h)
  unfold Float32.ofScientific
  split
  · dsimp only
    split
    · exact isUnsigned_div (isUnsigned_toFloat32 _) (hpower _)
    · exact isUnsigned_mul (isUnsigned_toFloat32 _) (hpower _)
  · exact msb_pack (unsigned_ofScientific _ n _)

/-- A float without a sign is kept as one, or is no number. -/
theorem isNegative_ofFloat {v : Float32} (h : IsUnsigned v) :
    Binary32.ofFloat v = .invalid ∨ (Binary32.ofFloat v).isNegative = false := by
  unfold Binary32.ofFloat
  split
  · exact .inl rfl
  · refine .inr (decide_eq_false fun hsign => ?_)
    have hbits := BitVec.msb_eq_false_iff_two_mul_lt.mp h
    rw [UInt32.toNat_toBitVec] at hbits
    dsimp only [Binary32.signBit] at hsign
    omega

end

section

variable {cs : List Char} {v : Binary32}

/-- Digits, with a point and a power of ten or not, write nothing negative. -/
theorem isNegative_of_number? (h : number? cs = some v) : v = .invalid ∨ v.isNegative = false := by
  unfold number? at h
  simp only [Option.bind_eq_bind, Option.bind_eq_some_iff] at h
  rcases h with ⟨n, -, e, -, hv⟩
  cases hv
  exact isNegative_ofFloat (isUnsigned_ofScientific _ _ _)

theorem isNegative_of_magnitude? (h : magnitude? cs = some v) :
    v = .invalid ∨ v.isNegative = false := by
  unfold magnitude? at h
  split at h
  · cases h
    exact .inr rfl
  · cases h
    exact .inr rfl
  · cases h
    exact .inr rfl
  · exact isNegative_of_number? h

/-- Points are dropped at the end of a text, not at its start. -/
theorem exists_cons_of_trimmed {c : Char} (hc : isDigit c = true) (cs : List Char) :
    ∃ ds, ((c :: cs).reverse.dropWhile (· = '.')).reverse = c :: ds := by
  have hpoint : c ≠ '.' := by
    rintro rfl
    cases hc
  rw [List.reverse_cons, List.dropWhile_append]
  split
  · exact ⟨[], by simp [hpoint]⟩
  · exact ⟨(cs.reverse.dropWhile (· = '.')).reverse, by simp⟩

/-- A literal stands for no number or for one without a minus sign. -/
theorem isNegative_of_floatLiteral? {text : String} (hdigit : StartsWithDigit text)
    (h : floatLiteral? text = some v) : v = .invalid ∨ v.isNegative = false := by
  rcases hdigit with ⟨c, cs, htext, hc⟩
  rcases exists_cons_of_trimmed hc cs with ⟨ds, htrimmed⟩
  unfold floatLiteral? at h
  rw [htext, htrimmed, cutSign_of_isDigit hc] at h
  rcases Option.map_eq_some_iff.mp h with ⟨w, hw, rfl⟩
  exact isNegative_of_magnitude? hw

end

/-! ## Digits with a point between them -/

/-- Digits on both sides of a point. -/
structure Pointed (whole fraction : List Char) : Prop where
  whole_ne_nil : whole ≠ []
  fraction_ne_nil : fraction ≠ []
  digits : ∀ c ∈ whole ++ fraction, isDigit c = true

/-- The number that digits with a point between them write. -/
def pointedValue (whole fraction : List Char) : ℚ :=
  Nat.ofDigitChars 10 (whole ++ fraction) 0 / 10 ^ fraction.length

section

variable {whole fraction whole' fraction' : List Char}

theorem Pointed.isDigit_whole (h : Pointed whole fraction) : ∀ c ∈ whole, isDigit c = true :=
  fun c hc => h.digits c (List.mem_append_left _ hc)

theorem Pointed.isDigit_fraction (h : Pointed whole fraction) : ∀ c ∈ fraction, isDigit c = true :=
  fun c hc => h.digits c (List.mem_append_right _ hc)

/-- The point tells where the whole part ends. -/
theorem Pointed.takeWhile (h : Pointed whole fraction) :
    (whole ++ '.' :: fraction).takeWhile (· ≠ '.') = whole ∧
      (whole ++ '.' :: fraction).dropWhile (· ≠ '.') = '.' :: fraction := by
  refine takeWhile_run (fun c hc => ?_) (by simp)
  refine decide_eq_true ?_
  rintro rfl
  exact absurd (h.isDigit_whole '.' hc) (by decide)

/-- There is one point only. -/
theorem Pointed.unique (h : Pointed whole fraction) (h' : Pointed whole' fraction')
    (heq : whole ++ '.' :: fraction = whole' ++ '.' :: fraction') :
    whole = whole' ∧ fraction = fraction' := by
  have hwhole : whole = whole' := by rw [← h.takeWhile.1, heq, h'.takeWhile.1]
  have hfraction : '.' :: fraction = '.' :: fraction' := by
    rw [← h.takeWhile.2, heq, h'.takeWhile.2]
  exact ⟨hwhole, (List.cons.inj hfraction).2⟩

end

/-! ## The text of a float -/

/-- The text is digits with a point between them, and they write the number. -/
def Spells (text : String) (x : ℚ) : Prop :=
  ∃ whole fraction, text.toList = whole ++ '.' :: fraction ∧ Pointed whole fraction ∧
    pointedValue whole fraction = x

/-- A text spells one number. -/
theorem Spells.unique {text : String} {x y : ℚ} (h : Spells text x) (h' : Spells text y) :
    x = y := by
  rcases h with ⟨whole, fraction, htext, hpointed, rfl⟩
  rcases h' with ⟨whole', fraction', htext', hpointed', rfl⟩
  rcases hpointed.unique hpointed' (htext.symm.trans htext') with ⟨rfl, rfl⟩
  rfl

/-- The digits of a coefficient are its digits to the base ten. -/
theorem toList_text (d : Digits) : d.text.toList = Nat.toDigits 10 d.coefficient := by
  show d.coefficient.repr.toList = _
  rw [Nat.toList_repr]

theorem count_eq (d : Digits) : d.count = (Nat.toDigits 10 d.coefficient).length := by
  rw [Digits.count, ← String.length_toList, toList_text]

/-- As many digits stand behind the point as the exponent says. -/
theorem pointedValue_eq {d : Digits} {whole fraction : List Char}
    (hdigits : Nat.ofDigitChars 10 (whole ++ fraction) 0 = d.coefficient)
    (hexponent : d.exponent = -fraction.length) : pointedValue whole fraction = d.value := by
  rw [pointedValue, hdigits, Digits.value, hexponent, zpow_neg, zpow_natCast, div_eq_mul_inv]

/-- Digits, some of them behind the point, write the number that they stand for. -/
theorem spells_positional {d : Digits} (h : d.exponent < 0) : Spells d.positional d.value := by
  have hcount := count_eq d
  have htext := toList_text d
  have hdigits : ∀ c ∈ Nat.toDigits 10 d.coefficient, isDigit c = true :=
    fun c hc => isDigit_of_mem_toDigits hc
  unfold Digits.positional
  rw [if_neg (by omega)]
  dsimp only
  rw [htext, hcount]
  split
  · next hlt =>
    -- The point stands between the digits.
    refine ⟨_, _, by simp; rfl, ⟨?_, ?_, ?_⟩, pointedValue_eq ?_ ?_⟩
    · rw [ne_eq, List.take_eq_nil_iff]
      rintro (hnone | hnil)
      · omega
      · exact Nat.toDigits_ne_nil hnil
    · rw [ne_eq, List.drop_eq_nil_iff]
      omega
    · rwa [List.take_append_drop]
    · rw [List.take_append_drop, Nat.ofDigitChars_ten_toDigits]
    · rw [List.length_drop]
      omega
  · next hle =>
    -- The digits stand behind the point, and zeros before them.
    refine ⟨['0'], _, by simp [zeros, htext]; rfl, ⟨by simp, ?_, ?_⟩, pointedValue_eq ?_ ?_⟩
    · simp
    · simp only [List.mem_append, List.mem_singleton, List.mem_replicate]
      rintro c (rfl | ⟨-, rfl⟩ | hc)
      · rfl
      · rfl
      · exact hdigits c hc
    · simp [Nat.ofDigitChars_append, Nat.ofDigitChars_cons]
    · simp
      omega

/-- A whole number with `.0` behind it spells that number. -/
theorem spells_whole (n : Nat) : Spells (toString n ++ ".0") n := by
  refine ⟨Nat.toDigits 10 n, ['0'], ?_, ⟨Nat.toDigits_ne_nil, by simp, ?_⟩, ?_⟩
  · simp
  · simp only [List.mem_append, List.mem_singleton]
    rintro c (hc | rfl)
    · exact isDigit_of_mem_toDigits hc
    · rfl
  · simp [pointedValue, Nat.ofDigitChars_append, Nat.ofDigitChars_cons]

/-! ### Whole numbers -/

section

variable {m : Nat} {q : Int}

/-- The float itself lies in its interval. -/
theorem holds_mid (m : Nat) (q : Int) : (Interval.around m q).Holds (m * 2 ^ q) := by
  have hpos := two_zpow_pos (q - 2)
  have hmid : (m : ℚ) * 2 ^ q = (4 * m : Nat) * 2 ^ (q - 2) := by
    rw [zpow_sub₀ (by norm_num)]
    push_cast
    ring
  have hlow : (Interval.around m q).low ≤ 4 * m := by
    rcases low_around_cases m q with ⟨-, -, hlow⟩ | ⟨-, hlow⟩ <;> omega
  have hhigh : 4 * m < (Interval.around m q).high := Nat.lt_add_of_pos_right (by decide)
  rw [hmid]
  refine ⟨?_, ?_, fun hopen => ⟨?_, ?_⟩⟩
  · exact mul_le_mul_of_nonneg_right (by exact_mod_cast hlow) hpos.le
  · exact mul_le_mul_of_nonneg_right (by exact_mod_cast hhigh.le) hpos.le
  · -- Zero has an interval with its ends.
    have hm : 0 < m := by
      rcases Nat.eq_zero_or_pos m with rfl | hm
      · cases hopen
      · exact hm
    exact mul_lt_mul_of_pos_right (by exact_mod_cast low_around_lt hm q) hpos
  · exact mul_lt_mul_of_pos_right (by exact_mod_cast hhigh) hpos

/-- A whole number that rounds to a float whose unit is less than one is that float. -/
theorem eq_mul_power {n : Nat} (hq : q < 0) (h : (Interval.around m q).Holds n) :
    m = n * power 2 (-q) := by
  have hunit : (2 : ℚ) ^ (q - 2) * (4 * power 2 (-q) : Nat) = 1 := by
    rw [Nat.cast_mul, power_of_nonneg 2 (by omega), zpow_sub₀ (by norm_num), zpow_neg]
    push_cast
    field_simp
  -- In quarters of the unit it is a multiple of four, and lies at most two away from the float.
  have hscale : (0 : ℚ) ≤ (4 * power 2 (-q) : Nat) := Nat.cast_nonneg _
  have hlow := mul_le_mul_of_nonneg_right h.low hscale
  have hhigh := mul_le_mul_of_nonneg_right h.high hscale
  have hexponent : (Interval.around m q).q = q - 2 := rfl
  rw [hexponent, mul_assoc, hunit, mul_one] at hlow hhigh
  have hlow' : (Interval.around m q).low ≤ n * (4 * power 2 (-q)) := by exact_mod_cast hlow
  have hhigh' : n * (4 * power 2 (-q)) ≤ 4 * m + 2 := by exact_mod_cast hhigh
  rw [Nat.mul_left_comm] at hlow' hhigh'
  rcases low_around_cases m q with ⟨-, -, hends⟩ | ⟨-, hends⟩ <;> omega

/-- Where a whole number rounds to a float, the nearest whole number does as well. -/
theorem holds_nearestNat {n : Nat} (h : (Interval.around m q).Holds n) :
    (Interval.around m q).Holds (Binary32.nearestNat m q) := by
  unfold Binary32.nearestNat
  split
  · next hq =>
    rw [Nat.cast_mul, power_of_nonneg 2 hq]
    exact holds_mid m q
  · next hq =>
    have hm := eq_mul_power (by omega) h
    have hunit : 0 < power 2 (-q) := power_pos (by decide) _
    have hfloor : m / power 2 (-q) = n := by rw [hm, Nat.mul_div_cancel _ hunit]
    have hexcess : 2 * (m % power 2 (-q)) = 0 := by rw [hm, Nat.mul_mod_left]
    simpa only [hfloor, hexcess, hunit, decide_true, Bool.true_or, if_true] using h

/-- In source text there is no exponent: a whole number shows all its digits. -/
theorem magnitude_eq (m : Nat) (q : Int) :
    sourceLayout.magnitude m q = if (shortest m q).exponent < 0 then (shortest m q).positional
      else toString (Binary32.nearestNat m q) ++ ".0" := by
  simp [Layout.magnitude, sourceLayout]

/-- The text of a finite float writes a number that rounds to it. -/
theorem exists_spells_magnitude (hq : Binary32.leastExponent ≤ q) :
    ∃ x, Spells (sourceLayout.magnitude m q) x ∧ (Interval.around m q).Holds x := by
  have hholds := holds_shortest (m := m) hq
  rw [magnitude_eq]
  split
  · next h => exact ⟨_, spells_positional h, hholds⟩
  · next h =>
    have hwhole : (shortest m q).value
        = ((shortest m q).coefficient * power 10 (shortest m q).exponent : Nat) := by
      rw [Nat.cast_mul, power_of_nonneg 10 (by omega)]
      rfl
    rw [hwhole] at hholds
    exact ⟨_, spells_whole _, holds_nearestNat hholds⟩

end

/-! ## No two floats have the same text -/

/-- Digits have no minus sign before them. -/
theorem Spells.ne_minus {text : String} {x : ℚ} (h : Spells text x) (text' : String) :
    text ≠ "-" ++ text' := by
  rintro rfl
  rcases h with ⟨whole, fraction, htext, hpointed, -⟩
  rcases List.exists_cons_of_ne_nil hpointed.whole_ne_nil with ⟨c, cs, rfl⟩
  rw [String.toList_append] at htext
  obtain rfl : '-' = c := (List.cons.inj htext).1
  exact absurd (hpointed.isDigit_whole '-' List.mem_cons_self) (by decide)

section

variable {v w : Binary32} {negative negative' : Bool} {m m' : Nat} {q q' : Int}

/-- The text of a finite float is that of its magnitude, with a minus sign if it is negative. -/
theorem text_of_unpack (h : v.unpack = .finite negative m q) :
    sourceLayout.text v = (if negative then "-" else "") ++ sourceLayout.magnitude m q := by
  rw [Layout.text, h]

/-- The text of a finite float without a sign is digits with a point between them. -/
theorem exists_spells_text (h : v = .invalid ∨ v.isNegative = false)
    (hfinite : v.unpack = .finite negative m q) : ∃ x, Spells (sourceLayout.text v) x := by
  have hpositive : negative = false := by
    rcases h with rfl | h
    · cases hfinite
    · rw [← h, (unpack_cases hfinite).1]
  rcases exists_spells_magnitude (m := m) (canonical_of_unpack hfinite).least with ⟨x, hx, -⟩
  refine ⟨x, ?_⟩
  rw [text_of_unpack hfinite, hpositive]
  simpa using hx

/-- The text of a float without a sign. -/
theorem text_cases (h : v = .invalid ∨ v.isNegative = false) :
    (∃ x, Spells (sourceLayout.text v) x) ∨ sourceLayout.text v = "inf" ∨
      sourceLayout.text v = "NaN" := by
  cases hunpack : v.unpack with
  | nan => exact .inr (.inr (by rw [Layout.text, hunpack]))
  | infinite negative =>
    have hpositive : negative = false := by
      rcases h with rfl | h
      · cases hunpack
      · rw [← h, isNegative_of_infinite hunpack]
    exact .inr (.inl (by rw [Layout.text, hunpack, hpositive]; rfl))
  | finite negative m q => exact .inl (exists_spells_text h hunpack)

/-- Finite floats with the same text are the same. -/
theorem eq_of_text_eq (hv : v.unpack = .finite negative m q) (hw : w.unpack = .finite negative' m' q')
    (h : sourceLayout.text v = sourceLayout.text w) : v = w := by
  have hcanonical := canonical_of_unpack hv
  have hcanonical' := canonical_of_unpack hw
  rcases exists_spells_magnitude (m := m) hcanonical.least with ⟨x, hx, hholds⟩
  rcases exists_spells_magnitude (m := m') hcanonical'.least with ⟨x', hx', hholds'⟩
  rw [text_of_unpack hv, text_of_unpack hw] at h
  -- The minus sign is no digit, so both floats have one or neither.
  have hsame : negative = negative' ∧ sourceLayout.magnitude m q = sourceLayout.magnitude m' q' := by
    cases negative with
    | true =>
      cases negative' with
      | true => exact ⟨rfl, String.append_right_inj "-" |>.mp h⟩
      | false => exact absurd (by simpa using h.symm) (hx'.ne_minus _)
    | false =>
      cases negative' with
      | true => exact absurd (by simpa using h) (hx.ne_minus _)
      | false => exact ⟨rfl, by simpa using h⟩
  rcases hsame with ⟨rfl, hmagnitude⟩
  rw [hmagnitude] at hx
  obtain rfl := hx.unique hx'
  rcases eq_of_holds hcanonical hcanonical' hholds hholds' with ⟨rfl, rfl⟩
  exact eq_of_unpack hv hw

end

end Edict
