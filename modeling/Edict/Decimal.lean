import Edict.Binary32

/-! # Floats as decimals

The digits of a float, and the texts that are made of them.
-/

/-! ## The fewest digits that read back

Of all decimals that round to a given float, its digits are those of a shortest one, and of the
shortest ones the nearest to the float; halfway, the larger.
-/

namespace Edict.Decimal

/-- The number `coefficient · 10^exponent`. -/
structure Digits where
  coefficient : Nat
  exponent : Int
deriving DecidableEq, Repr, Inhabited

namespace Digits

def text (d : Digits) : String := toString d.coefficient

def count (d : Digits) : Nat := d.text.length

/-- How many digits stand before the point; zero or less for numbers below one. -/
def integerDigits (d : Digits) : Int := d.count + d.exponent

/-- The same number with a trailing zero moved into the exponent. -/
def trim (d : Digits) : Digits :=
  if d.coefficient ≠ 0 ∧ d.coefficient % 10 = 0 then ⟨d.coefficient / 10, d.exponent + 1⟩ else d

end Digits

/-- The decimals that round to one float: those between `low · 2^q` and `high · 2^q`, where the
float itself is `mid · 2^q`. -/
structure Interval where
  low : Nat
  mid : Nat
  high : Nat
  q : Int
  /-- Whether the two ends round to the float too. -/
  closed : Bool

namespace Interval

/-- The interval of `m · 2^q`.  It is narrower below where the floats lie denser there. -/
def around (m : Nat) (q : Int) : Interval where
  low := if m = Binary32.hiddenBit ∧ Binary32.leastExponent < q then 4 * m - 1 else 4 * m - 2
  mid := 4 * m
  high := 4 * m + 2
  q := q - 2
  closed := m % 2 = 0

/-- The factors that compare `x · 2^q` with `c · 10^k` in whole numbers: `x` times the first with
`c` times the second. -/
def factors (i : Interval) (k : Int) : Nat × Nat :=
  (power 2 i.q * power 10 (-k), power 2 (-i.q) * power 10 k)

/-- Whether `c · 10^k` lies in the interval. -/
def contains (i : Interval) (k : Int) (c : Nat) : Bool :=
  let (a, b) := i.factors k
  if i.closed then i.low * a ≤ c * b && c * b ≤ i.high * a
  else i.low * a < c * b && c * b < i.high * a

/-- The multiple of `10^k` that stands for the float: of its two neighbours on that grid the one in
the interval, of two in the interval the nearer, halfway the larger.  None if the float is below the
first grid point. -/
def onGrid? (i : Interval) (k : Int) : Option Digits :=
  let (a, b) := i.factors k
  let floor := i.mid * a / b
  if floor = 0 then none
  else match i.contains k floor, i.contains k (floor + 1) with
    | true, true =>
      if 2 * (i.mid * a) < (2 * floor + 1) * b then some ⟨floor, k⟩ else some ⟨floor + 1, k⟩
    | true, false => some ⟨floor, k⟩
    | false, true => some ⟨floor + 1, k⟩
    | false, false => none

/-- The first of `n` grids, from `10^k` downward, that has a multiple for the float. -/
def onGrids? (i : Interval) : Nat → Int → Option Digits
  | 0, _ => none
  | n + 1, k => i.onGrid? k <|> onGrids? i n (k - 1)

end Interval

/-- The digits of `m · 2^q`.  A 32-bit float is less than `10^39` and at least `10^-45`, and nine
digits tell any two apart, so one of the grids from `10^38` to `10^-54` has them. -/
def shortest (m : Nat) (q : Int) : Digits :=
  if m = 0 then ⟨0, 0⟩ else (((Interval.around m q).onGrids? 93 38).map Digits.trim).getD ⟨m, 0⟩

/-! ## Text of floats

Three texts of a float are in use: its string form, its form as a literal in printed expressions,
and its form in structural dumps.  They share the digits and differ in the few decisions that a
`Layout` lists.
-/

def zeros (n : Nat) : String := String.ofList (List.replicate n '0')

/-- The number without an exponent: digits, a point where one is due, and zeros to fill up. -/
def Digits.positional (d : Digits) : String :=
  if 0 ≤ d.exponent then d.text ++ zeros d.exponent.toNat
  else
    let fraction := (-d.exponent).toNat
    if fraction < d.count then
      let cs := d.text.toList
      String.ofList (cs.take (d.count - fraction)) ++ "."
        ++ String.ofList (cs.drop (d.count - fraction))
    else "0." ++ zeros (fraction - d.count) ++ d.text

/-- One digit, a point and the others if there are any, and what `mark` makes of the exponent. -/
def Digits.scientific (d : Digits) (mark : Int → String) : String :=
  match d.text.toList with
  | [] => ""
  | lead :: rest =>
    String.singleton lead ++ (if rest = [] then "" else "." ++ String.ofList rest)
      ++ mark (d.integerDigits - 1)

/-- The decisions that make the text of a float. -/
structure Layout where
  /-- The text of positive infinity; the negative one has a minus sign before it. -/
  infinity : String
  /-- Whether a number with so many digits, and so many before the point, has no exponent. -/
  positional : (digits : Nat) → (integerDigits : Int) → Bool
  /-- Whether whole numbers show all their digits, and not zeros after the shortest ones. -/
  exactWholes : Bool
  /-- What follows a whole number that has no exponent. -/
  wholeTail : String
  /-- The text of an exponent. -/
  exponent : Int → String

/-- The text of the number `m · 2^q`, its sign left out. -/
def Layout.magnitude (layout : Layout) (m : Nat) (q : Int) : String :=
  let d := shortest m q
  if layout.positional d.count d.integerDigits then
    if d.exponent < 0 then d.positional
    else if layout.exactWholes then toString (Binary32.nearestNat m q) ++ layout.wholeTail
    else d.positional ++ layout.wholeTail
  else d.scientific layout.exponent

def Layout.text (layout : Layout) (v : Binary32) : String :=
  match v.unpack with
  | .nan => "NaN"
  | .infinite negative => (if negative then "-" else "") ++ layout.infinity
  | .finite negative m q => (if negative then "-" else "") ++ layout.magnitude m q

end Edict.Decimal
