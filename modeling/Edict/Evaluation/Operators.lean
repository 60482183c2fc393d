import Edict.Evaluation.Scope

/-! # What operators compute

Operators on one operand work on numbers and truth values.  Of two operands the kinds of both choose
the table.  An integer beside a float becomes a float; anything but `void` beside a string becomes
its string form; objects and `null` compare by identity alone.  Integer results that do not fit are
errors, and floats are equal when they differ by no more than the step behind one.
-/

namespace Edict

/-! ## One operand -/

/-- The integer `n` if it has 32 bits; `operation` names what made it. -/
def checkedInt (operation : String) (n : Int) : Except EvalError Value :=
  match int32? n with
  | some v => .ok (.int v)
  | none => .error (.integerOverflow operation)

/-- Signs, negation and steps by one. -/
def evaluateUnary (op : Op) (operand : Value) : Except EvalError Value :=
  match op, operand with
  | .neg, .int v => checkedInt "negation" (-v.toInt)
  | .pos, .int v => .ok (.int v)
  | .inc, .int v => checkedInt "increment" (v.toInt + 1)
  | .dec, .int v => checkedInt "decrement" (v.toInt - 1)
  | .neg, .float v => .ok (.float (-v))
  | .pos, .float v => .ok (.float v)
  | .inc, .float v => .ok (.float (v + 1))
  | .dec, .float v => .ok (.float (v - 1))
  | .not, .bool v => .ok (.bool (!v))
  | op, operand => .error (.unaryTypeMismatch op operand.kind)

/-! ## Two operands -/

/-- An integer as a float, rounded to the nearest. -/
def promote (v : Int32) : Binary32 := .ofInt v.toInt

/-- Equality of floats up to one step of the number one. -/
def floatEq (a b : Binary32) : Bool := (a - b).abs ≤ Binary32.epsilon

/-- Integer powers are computed in double precision and lose what is behind the point, so that
negative exponents make `0`, or `1` and `-1` of themselves. -/
def intPow (a b : Int32) : Except EvalError Value :=
  let power := Float.pow (Float.ofInt a.toInt) (Float.ofInt b.toInt)
  if -2147483649.0 < power && power < 2147483648.0 then .ok (.int power.toInt32)
  else .error (.integerOverflow "exponentiation")

def evaluateInts (op : Op) (a b : Int32) : Except EvalError Value :=
  match op with
  | .add => checkedInt "addition" (a.toInt + b.toInt)
  | .sub => checkedInt "subtraction" (a.toInt - b.toInt)
  | .mul => checkedInt "multiplication" (a.toInt * b.toInt)
  | .div =>
    if b = 0 then .error .divisionByZero else checkedInt "division" (a.toInt.tdiv b.toInt)
  | .mod =>
    if b = 0 then .error .moduloByZero
    else if a = Int32.minValue ∧ b = -1 then .error (.integerOverflow "remainder")
    else checkedInt "remainder" (a.toInt.tmod b.toInt)
  | .pow => intPow a b
  | .eq => .ok (.bool (a = b))
  | .ne => .ok (.bool (a ≠ b))
  | .lt => .ok (.bool (a < b))
  | .le => .ok (.bool (a ≤ b))
  | .gt => .ok (.bool (b < a))
  | .ge => .ok (.bool (b ≤ a))
  | op => .error (.binaryTypeMismatch op .int .int)

def evaluateFloats (op : Op) (a b : Binary32) : Except EvalError Value :=
  match op with
  | .add => .ok (.float (a + b))
  | .sub => .ok (.float (a - b))
  | .mul => .ok (.float (a * b))
  | .div => .ok (.float (a / b))
  | .mod => .ok (.float (a % b))
  | .pow => .ok (.float (a.pow b))
  | .eq => .ok (.bool (floatEq a b))
  | .ne => .ok (.bool (!floatEq a b))
  | .lt => .ok (.bool (a < b))
  | .le => .ok (.bool (a ≤ b))
  | .gt => .ok (.bool (b < a))
  | .ge => .ok (.bool (b ≤ a))
  | op => .error (.binaryTypeMismatch op .float .float)

/-- The table of two truth values, both known. -/
def evaluateBools (op : Op) (a b : Bool) : Except EvalError Value :=
  match op with
  | .and => .ok (.bool (a && b))
  | .or => .ok (.bool (a || b))
  | .eq => .ok (.bool (a = b))
  | .ne => .ok (.bool (a ≠ b))
  | op => .error (.binaryTypeMismatch op .bool .bool)

/-- The table of two strings; the order is that of code points. -/
def evaluateStrings (op : Op) (a b : String) : Except EvalError Value :=
  match op with
  | .add => .ok (.str (a ++ b))
  | .eq => .ok (.bool (a = b))
  | .ne => .ok (.bool (a ≠ b))
  | .lt => .ok (.bool (a < b))
  | .le => .ok (.bool (a ≤ b))
  | .gt => .ok (.bool (b < a))
  | .ge => .ok (.bool (b ≤ a))
  | op => .error (.binaryTypeMismatch op .string .string)

/-- The table of two objects, of which it is known whether they are the same. -/
def evaluateObjects (op : Op) (same : Bool) : Except EvalError Value :=
  match op with
  | .eq => .ok (.bool same)
  | .ne => .ok (.bool (!same))
  | op => .error (.binaryTypeMismatch op .object .object)

/-- Applies an operator to two values.  Where it asks for the string form of an object, that is
`objectText`. -/
def evaluateKnown (objectText : String) (op : Op) (left right : Value) : Except EvalError Value :=
  match left, right with
  | .int a, .int b => evaluateInts op a b
  | .float a, .float b => evaluateFloats op a b
  | .int a, .float b => evaluateFloats op (promote a) b
  | .float a, .int b => evaluateFloats op a (promote b)
  | .bool a, .bool b => evaluateBools op a b
  | .void, right => .error (.binaryTypeMismatch op .void right.kind)
  | left, .void => .error (.binaryTypeMismatch op left.kind .void)
  | .str a, right => evaluateStrings op a (right.text objectText)
  | left, .str b => evaluateStrings op (left.text objectText) b
  | .object a, .object b => evaluateObjects op (a.isSame b)
  | .null, .null => evaluateObjects op true
  | .object _, .null | .null, .object _ => evaluateObjects op false
  | left, right => .error (.binaryTypeMismatch op left.kind right.kind)

/-- The object that an operator on two values asks for its string form: one beside a string. -/
def spelled? : Value → Value → Option ObjectRef
  | .str _, .object o | .object o, .str _ => some o
  | _, _ => none

/-- The string form that an operator on two values asks an object for, if it asks one. -/
def askText {σ : Type} (host : Objects σ) (left right : Value) : StateM (World σ) String :=
  match spelled? left right with
  | some o => host.text o
  | none => pure ""

def evaluateBinary {σ : Type} (host : Objects σ) (op : Op) (left right : Value) :
    ExceptT EvalError (StateM (World σ)) Value := do
  let objectText ← askText host left right
  ExceptT.mk (pure (evaluateKnown objectText op left right))

theorem run_evaluateBinary {σ : Type} (host : Objects σ) (op : Op) (left right : Value)
    (w : World σ) :
    (evaluateBinary host op left right).run w
      = (evaluateKnown ((askText host left right).run w).1 op left right,
        ((askText host left right).run w).2) :=
  rfl

end Edict
