/-! # 32-bit floats

A float is its thirty-two bits.  Two floats that are no number can differ in them, and what is
written as a float can be read as something else, so the bits are kept as they are.

A finite float stands for a sign and a dyadic number `m · 2^q`.  Digits, nearest integers and
remainders are computed on that number, in whole-number arithmetic.
-/

namespace Edict

/-- `base` to the power `k`; one if `k` is below zero. -/
def power (base : Nat) (k : Int) : Nat := base.pow k.toNat

/-- A float, as its bits: the sign, eight bits of exponent and twenty-three of fraction. -/
structure Binary32 where
  bits : UInt32
deriving DecidableEq, Repr, Inhabited

namespace Binary32

/-! ## Exact values -/

/-- What a float stands for. -/
inductive Unpacked where
  /-- No number. -/
  | nan
  /-- An infinity, negative or positive. -/
  | infinite (negative : Bool)
  /-- The number `m · 2^q`, or its opposite.  Zero has `m = 0` and keeps its sign. -/
  | finite (negative : Bool) (m : Nat) (q : Int)
deriving DecidableEq, Repr, Inhabited

/-- The leading bit of all but the smallest floats, `2^23`; the bits of a float leave it out. -/
def hiddenBit : Nat := 8388608

/-- The bit of the sign, `2^31`. -/
def signBit : Nat := 2147483648

/-- The exponent of the smallest positive float. -/
def leastExponent : Int := -149

def isNegative (v : Binary32) : Bool := signBit ≤ v.bits.toNat

/-- Reads the sign, the eight exponent bits and the twenty-three fraction bits. -/
def unpack (v : Binary32) : Unpacked :=
  let bits := v.bits.toNat
  let negative := v.isNegative
  let exponent : Nat := bits / hiddenBit % 256
  let fraction := bits % hiddenBit
  if exponent = 255 then
    if fraction = 0 then .infinite negative else .nan
  else if exponent = 0 then .finite negative fraction leastExponent
  else .finite negative (hiddenBit + fraction) (leastExponent + exponent - 1)

/-- The float `m · 2^q`, for `m` below `2^24` and `q` at least `leastExponent`. -/
def pack (negative : Bool) (m : Nat) (q : Int) : Binary32 :=
  let room := min (23 - m.log2) (q - leastExponent).toNat
  let m := m * power 2 room
  let magnitude :=
    if m < hiddenBit then m
    else m - hiddenBit + ((q - leastExponent).toNat - room + 1) * hiddenBit
  ⟨UInt32.ofNat (magnitude + if negative then signBit else 0)⟩

/-- The whole number nearest to `m · 2^q`; halfway, the even one. -/
def nearestNat (m : Nat) (q : Int) : Nat :=
  if 0 ≤ q then m * power 2 q
  else
    let unit := power 2 (-q)
    let floor := m / unit
    let excess := 2 * (m % unit)
    if excess < unit || (excess = unit && floor % 2 = 0) then floor else floor + 1

/-- The integer nearest to `v`; halfway, the even one.  Infinities and NaN have none. -/
def nearestInt? (v : Binary32) : Option Int :=
  match v.unpack with
  | .finite negative m q =>
    let n : Int := nearestNat m q
    some (if negative then -n else n)
  | _ => none

def isOdd (v : Binary32) : Bool :=
  match v.unpack with
  | .finite _ m q =>
    if 0 ≤ q then q = 0 && m % 2 = 1
    else m % power 2 (-q) = 0 && m / power 2 (-q) % 2 = 1
  | _ => false

/-! ## Floats that are no number -/

def isNaN (v : Binary32) : Bool := v.unpack = .nan

def isFinite (v : Binary32) : Bool :=
  match v.unpack with
  | .finite _ _ _ => true
  | _ => false

/-- The leading bit of the fraction, which tells the quiet from the signaling. -/
def quietMask : UInt32 := 0x00400000

/-- Whether the float is no number and arithmetic with it is an error. -/
def isSignaling (v : Binary32) : Bool := v.isNaN && v.bits &&& quietMask = 0

/-- A float that is no number as arithmetic hands it on. -/
def quiet (v : Binary32) : Binary32 := ⟨v.bits ||| quietMask⟩

/-- The result of an operation that has none, such as zero divided by zero. -/
def invalid : Binary32 := ⟨0xffc00000⟩

def infinity : Binary32 := ⟨0x7f800000⟩

/-! ## Floats of arithmetic -/

/-- The float as arithmetic takes it.  All that are no number become one. -/
def toFloat (v : Binary32) : Float32 := Float32.ofBits v.bits

/-- The result of an operation on numbers. -/
def ofFloat (v : Float32) : Binary32 := if v.isNaN then invalid else ⟨v.toBits⟩

def ofInt (n : Int) : Binary32 := ofFloat (Float32.ofInt n)

instance (n : Nat) : OfNat Binary32 n := ⟨ofInt n⟩

/-- The difference between one and the next larger float, `2^-23`. -/
def epsilon : Binary32 := ⟨0x34000000⟩

/-! ## Arithmetic on 32-bit floats

Results are rounded to the nearest float.  An operand that is no number is handed on as the result,
its bits kept but for the one that makes it quiet; of two such operands it is the first.  Where
numbers have no result, the result is `invalid`.
-/

/-- The operand that an operation hands on: the first that is no number. -/
def firstNaN? (a b : Binary32) : Option Binary32 :=
  if a.isNaN then some a.quiet else if b.isNaN then some b.quiet else none

/-- An operation on floats that computes `f` on numbers. -/
def operate (f : Float32 → Float32 → Float32) (a b : Binary32) : Binary32 :=
  (firstNaN? a b).getD (ofFloat (f a.toFloat b.toFloat))

instance : Add Binary32 := ⟨operate (· + ·)⟩

instance : Sub Binary32 := ⟨operate (· - ·)⟩

instance : Mul Binary32 := ⟨operate (· * ·)⟩

instance : Div Binary32 := ⟨operate (· / ·)⟩

def signMask : UInt32 := 0x80000000

/-- The opposite: the sign bit is turned over, also where the float is no number. -/
instance : Neg Binary32 := ⟨fun v => ⟨v.bits ^^^ signMask⟩⟩

/-- The magnitude: the sign bit is cleared. -/
def abs (v : Binary32) : Binary32 := ⟨v.bits &&& ~~~signMask⟩

/-- The remainder of dividing one number by another toward zero.  It is exact and has the sign of
the first. -/
def remainder (x y : Binary32) : Binary32 :=
  match x.unpack, y.unpack with
  | .finite negative a p, .finite _ b q =>
    if b = 0 then invalid
    else
      let low := min p q
      pack negative (a * power 2 (p - low) % (b * power 2 (q - low))) low
  | .finite .., .infinite _ => x
  | _, _ => invalid

instance : Mod Binary32 := ⟨fun x y => (firstNaN? x y).getD (remainder x y)⟩

/-- `a` to the power `b`.  The exponent zero and the base one give one, whatever the other operand
is, unless that is signaling.  A negative base that is no number changes its sign under an odd
exponent, as a number does. -/
def pow (a b : Binary32) : Binary32 :=
  if b = 0 ∨ b = -0 then if a.isSignaling then a.quiet else 1
  else if a = 1 then if b.isSignaling then b.quiet else 1
  else if a.isNaN && a.isNegative && b.isOdd then -a.quiet
  else operate Float32.pow a b

/-- Equality of floats as numbers: both zeros are equal, and what is no number equals nothing. -/
def isEqual (a b : Binary32) : Bool := a.toFloat == b.toFloat

instance : LT Binary32 := ⟨fun a b => a.toFloat < b.toFloat⟩

instance : LE Binary32 := ⟨fun a b => a.toFloat ≤ b.toFloat⟩

instance (a b : Binary32) : Decidable (a < b) :=
  inferInstanceAs (Decidable (a.toFloat < b.toFloat))

instance (a b : Binary32) : Decidable (a ≤ b) :=
  inferInstanceAs (Decidable (a.toFloat ≤ b.toFloat))

end Binary32

end Edict
