import Edict.Proofs.StrictConstants

namespace Edict

/-! # Integer arithmetic is exact

Integers have 32 bits, but no operation on them wraps.  `Node.exactValue?` is what a tree of integers
comes to if there are no bounds.  Evaluating the tree finds this number wherever every part of the
tree has one that fits, and otherwise complains of the first part, in the order in which the parts
are evaluated, that has none.

Main statement: `evalValue_of_arithmetic`.
-/

open EvalM

/-! ## Exact values -/

/-- Whether the operator stands before an integer as its sign. -/
def Op.isSign : Op → Bool
  | neg | pos => true
  | _ => false

/-- Whether the operator stands between two integers and has an integer as its result. -/
def Op.isArithmetic : Op → Bool
  | add | sub | mul | div | mod => true
  | _ => false

/-- Trees of integer literals, signs, and the operators `+`, `-`, `*`, `/` and `%`. -/
inductive Node.Arithmetic : Node → Prop
  | literal (v : Int32) : Arithmetic (.int v)
  | signed {op : Op} {operand : Node} (hop : op.isSign = true) (hoperand : Arithmetic operand) :
      Arithmetic (.apply op [operand])
  | combined {op : Op} {left right : Node} (hop : op.isArithmetic = true)
      (hleft : Arithmetic left) (hright : Arithmetic right) :
      Arithmetic (.apply op [left, right])

namespace Op

/-- The number with the sign before it. -/
def exactSigned? : Op → Int → Option Int
  | neg, a => some (-a)
  | pos, a => some a
  | _, _ => none

/-- The number that two numbers make.  Quotients are truncated toward zero, remainders have the sign
of the dividend, and neither exists for the divisor zero. -/
def exactCombined? : Op → Int → Int → Option Int
  | add, a, b => some (a + b)
  | sub, a, b => some (a - b)
  | mul, a, b => some (a * b)
  | div, a, b => if b = 0 then none else some (a.tdiv b)
  | mod, a, b => if b = 0 then none else some (a.tmod b)
  | _, _, _ => none

/-- The complaint about a divisor zero. -/
def zeroDivisor? : Op → Option EvalError
  | div => some .divisionByZero
  | mod => some .moduloByZero
  | _ => none

/-- The complaint about a result that does not fit. -/
def overflow? : Op → Option EvalError
  | neg => some (.integerOverflow "negation")
  | add => some (.integerOverflow "addition")
  | sub => some (.integerOverflow "subtraction")
  | mul => some (.integerOverflow "multiplication")
  | div => some (.integerOverflow "division")
  | mod => some (.integerOverflow "remainder")
  | _ => none

end Op

namespace Node

/-- What a tree of integers comes to if there are no bounds. -/
def exactValue? : Node → Option Int
  | int v => some v.toInt
  | apply op [operand] => operand.exactValue?.bind op.exactSigned?
  | apply op [left, right] =>
    left.exactValue?.bind fun a => right.exactValue?.bind (op.exactCombined? a)
  | _ => none

/-- Whether this is the remainder of the least integer by `-1`, whose quotient does not fit. -/
def isExtremeRemainder : Node → Bool
  | apply .mod [left, right] =>
    left.exactValue? = some (-2147483648) ∧ right.exactValue? = some (-1)
  | _ => false

/-- Whether the expression comes to a number of 32 bits, the sign included, and is not the remainder
of the least integer by `-1`. -/
def isExact (n : Node) : Bool :=
  !n.isExtremeRemainder && n.exactValue?.any fun z => -2147483648 ≤ z && z ≤ 2147483647

/-- The complaint about an operation that is not exact: a divisor that is zero, and otherwise an
overflow. -/
def complaint? : Node → Option EvalError
  | apply op [_, right] =>
    if right.exactValue? = some 0 then op.zeroDivisor?.or op.overflow? else op.overflow?
  | apply op _ => op.overflow?
  | _ => none

/-- The first of the parts that is not exact, where operands come before their operation and the
left one before the right one. -/
def firstOffender? (n : Node) : Option Node := n.postorder.find? fun part => !part.isExact

/-- The first of the parts of the expressions that is not exact. -/
def firstOffenderOf? (ns : List Node) : Option Node :=
  (allPostorder ns).find? fun part => !part.isExact

/-- The outcome that an operation should have whose operands are exact. -/
def Answers (n : Node) : Except EvalError Value → Prop
  | .ok v => n.isExact = true ∧ ∃ i : Int32, v = .int i ∧ n.exactValue? = some i.toInt
  | .error e => n.isExact = false ∧ n.complaint? = some e

/-- The outcome that a tree of integers should have: its exact value, or the complaint about the
first of its parts that is not exact. -/
def Settles (n : Node) : Except EvalError Value → Prop
  | .ok v => n.firstOffender? = none ∧ ∃ i : Int32, v = .int i ∧ n.exactValue? = some i.toInt
  | .error e => ∃ part, n.firstOffender? = some part ∧ part.complaint? = some e

end Node

/-! ## One operation -/

section

variable {op : Op} {n operand left right : Node} {a b : Int32}

theorem Node.isExact_int (v : Int32) : (Node.int v).isExact = true := by
  have hlow := v.le_toInt
  have hhigh := v.toInt_lt
  simp only [isExact, isExtremeRemainder, exactValue?, Option.any_some, Bool.not_false,
    Bool.true_and, Bool.and_eq_true, decide_eq_true_eq]
  omega

/-- A number is made an integer if it fits, and is complained of otherwise. -/
theorem Node.answers_checkedInt {z : Int} {operation : String} (hvalue : n.exactValue? = some z)
    (hplain : n.isExtremeRemainder = false)
    (hcomplaint : n.complaint? = some (.integerOverflow operation)) :
    n.Answers (checkedInt operation z) := by
  by_cases hfits : -2147483648 ≤ z ∧ z ≤ 2147483647
  · have hi : (Int32.ofInt z).toInt = z := Int32.toInt_ofInt_of_le hfits.1 (by omega)
    rw [checkedInt, int32?, if_pos hfits]
    exact ⟨by simp [isExact, hvalue, hplain, hfits], Int32.ofInt z, rfl, by rw [hi, hvalue]⟩
  · rw [checkedInt, int32?, if_neg hfits]
    refine ⟨?_, hcomplaint⟩
    simp only [isExact, hvalue, hplain, Option.any_some]
    simpa using hfits

/-- A sign gives the exact opposite, or complains that it has no place in 32 bits. -/
theorem Node.answers_signed (hop : op.isSign = true)
    (hoperand : operand.exactValue? = some a.toInt) :
    (Node.apply op [operand]).Answers (evaluateUnary op (.int a)) := by
  cases op with
  | neg =>
    have hvalue : (Node.apply .neg [operand]).exactValue? = some (-a.toInt) := by
      rw [exactValue?, hoperand]
      rfl
    exact answers_checkedInt hvalue rfl rfl
  | pos =>
    have hvalue : (Node.apply .pos [operand]).exactValue? = some a.toInt := by
      rw [exactValue?, hoperand]
      rfl
    refine ⟨?_, a, rfl, hvalue⟩
    have hexact := isExact_int a
    rw [isExact, exactValue?] at hexact
    rw [isExact, hvalue]
    exact hexact
  | _ => cases hop

/-- Without a zero to divide by, an operator complains of results that do not fit. -/
theorem Node.complaint?_of_ne_zero (hright : right.exactValue? = some b.toInt)
    (h : b = 0 → op.zeroDivisor? = none) :
    (Node.apply op [left, right]).complaint? = op.overflow? := by
  rw [complaint?, hright]
  split
  · next hb =>
    have hzero : b = 0 := Int32.toInt_inj.mp (Option.some.inj hb)
    rw [h hzero, Option.none_or]
  · rfl

/-- Without a number that the operation comes to, the divisor is what is complained of. -/
theorem Node.answers_zeroDivisor {e : EvalError} (hleft : left.exactValue? = some a.toInt)
    (hright : right.exactValue? = some 0) (hundefined : op.exactCombined? a.toInt 0 = none)
    (he : op.zeroDivisor? = some e) : (Node.apply op [left, right]).Answers (.error e) := by
  have hvalue : (Node.apply op [left, right]).exactValue? = none := by
    rw [exactValue?, hleft, hright]
    exact hundefined
  refine ⟨by simp [isExact, hvalue], ?_⟩
  rw [complaint?, hright, if_pos rfl, he, Option.some_or]

/-- An operation on two integers does what is due to their exact values. -/
theorem Node.answers_combined (hop : op.isArithmetic = true)
    (hleft : left.exactValue? = some a.toInt) (hright : right.exactValue? = some b.toInt) :
    (Node.apply op [left, right]).Answers (evaluateKnown "" op (.int a) (.int b)) := by
  have hvalue : (Node.apply op [left, right]).exactValue? = op.exactCombined? a.toInt b.toInt := by
    rw [exactValue?, hleft, hright]
    rfl
  have hzero : b.toInt = 0 ↔ b = 0 := Int32.toInt_inj (y := 0)
  show Answers _ (evaluateInts op a b)
  -- Division and remainder look at the divisor first; the others just compute.
  cases op with
  | add | sub | mul =>
    exact answers_checkedInt hvalue rfl (complaint?_of_ne_zero hright fun _ => rfl)
  | div =>
    by_cases hb : b = 0
    · rw [evaluateInts, if_pos hb]
      exact answers_zeroDivisor hleft (hright.trans (congrArg some (hzero.mpr hb))) rfl rfl
    · rw [evaluateInts, if_neg hb]
      rw [Op.exactCombined?, if_neg (mt hzero.mp hb)] at hvalue
      exact answers_checkedInt hvalue rfl (complaint?_of_ne_zero hright fun h => absurd h hb)
  | mod =>
    by_cases hb : b = 0
    · rw [evaluateInts, if_pos hb]
      exact answers_zeroDivisor hleft (hright.trans (congrArg some (hzero.mpr hb))) rfl rfl
    · have hcomplaint : (Node.apply .mod [left, right]).complaint? = Op.mod.overflow? :=
        complaint?_of_ne_zero hright fun h => absurd h hb
      rw [evaluateInts, if_neg hb]
      rw [Op.exactCombined?, if_neg (mt hzero.mp hb)] at hvalue
      by_cases hextreme : a = Int32.minValue ∧ b = -1
      · -- The remainder would fit, but the quotient does not.
        rw [if_pos hextreme]
        refine ⟨?_, hcomplaint⟩
        rw [isExact, isExtremeRemainder, hleft, hright, hextreme.1, hextreme.2]
        rfl
      · rw [if_neg hextreme]
        refine answers_checkedInt hvalue ?_ hcomplaint
        have hmin : a.toInt = -2147483648 ↔ a = Int32.minValue :=
          Int32.toInt_inj (y := Int32.minValue)
        have hminus : b.toInt = -1 ↔ b = -1 := Int32.toInt_inj (y := -1)
        rw [isExtremeRemainder, hleft, hright]
        simpa [hmin, hminus] using hextreme
  | _ => cases hop

end

/-! ## The parts in their order -/

section

variable {op : Op} {operands : List Node} {part : Node} {e : EvalError}
  {outcome : Except EvalError Value}

/-- There is no offender if every part is exact. -/
theorem Node.firstOffender?_eq_none_iff {n : Node} :
    n.firstOffender? = none ↔ ∀ part ∈ n.subtrees, part.isExact = true := by
  simp only [firstOffender?, List.find?_eq_none, Bool.not_eq_true', Bool.not_eq_false,
    n.postorder_perm_subtrees.mem_iff]

theorem Node.firstOffenderOf?_cons (n : Node) (ns : List Node) :
    firstOffenderOf? (n :: ns) = n.firstOffender?.or (firstOffenderOf? ns) := by
  rw [firstOffenderOf?, allPostorder, List.find?_append]
  rfl

/-- An operation is an offender only after its operands. -/
theorem Node.firstOffender?_apply :
    (Node.apply op operands).firstOffender? = (firstOffenderOf? operands).or
      (if (Node.apply op operands).isExact then none else some (.apply op operands)) := by
  rw [firstOffender?, postorder_apply, List.find?_append, List.find?_singleton, firstOffenderOf?]
  cases (Node.apply op operands).isExact with
  | true => rfl
  | false => rfl

/-- With exact parts, the operation itself decides. -/
theorem Node.Answers.settles (h : (Node.apply op operands).Answers outcome)
    (hparts : firstOffenderOf? operands = none) : (Node.apply op operands).Settles outcome := by
  cases outcome with
  | ok v => exact ⟨by rw [firstOffender?_apply, hparts, h.1]; rfl, h.2⟩
  | error e => exact ⟨_, by rw [firstOffender?_apply, hparts, h.1]; rfl, h.2⟩

/-- With a part that is not exact, this part decides. -/
theorem Node.settles_of_part (hparts : firstOffenderOf? operands = some part)
    (he : part.complaint? = some e) : (Node.apply op operands).Settles (.error e) :=
  ⟨part, by rw [firstOffender?_apply, hparts, Option.some_or], he⟩

theorem Node.settles_int (v : Int32) : (Node.int v).Settles (.ok (.int v)) := by
  refine ⟨?_, v, rfl, rfl⟩
  rw [firstOffender?, postorder_leaf (by simp) (by simp) (by simp), List.find?_singleton,
    isExact_int]
  rfl

/-- A sign settles what its operand does, or the error of that. -/
theorem Node.settles_signed {operand : Node} {a : Except EvalError Value} (hop : op.isSign = true)
    (ha : operand.Settles a) : (Node.apply op [operand]).Settles (a >>= evaluateUnary op) := by
  have hparts : firstOffenderOf? [operand] = operand.firstOffender? := by
    rw [firstOffenderOf?_cons]
    exact Option.or_none
  cases a with
  | error e =>
    rcases ha with ⟨part, hpart, he⟩
    exact settles_of_part (hparts.trans hpart) he
  | ok v =>
    rcases ha with ⟨hexact, i, rfl, hvalue⟩
    exact (answers_signed hop hvalue).settles (hparts.trans hexact)

/-- An operator settles what both of its operands do, or the first of their errors. -/
theorem Node.settles_combined {left right : Node} {a b : Except EvalError Value}
    (hop : op.isArithmetic = true) (ha : left.Settles a) (hb : right.Settles b) :
    (Node.apply op [left, right]).Settles (a >>= fun x => b >>= evaluateKnown "" op x) := by
  have hparts : firstOffenderOf? [left, right] = left.firstOffender?.or right.firstOffender? := by
    rw [firstOffenderOf?_cons, firstOffenderOf?_cons]
    exact congrArg _ Option.or_none
  cases a with
  | error e =>
    rcases ha with ⟨part, hpart, he⟩
    rw [hpart, Option.some_or] at hparts
    exact settles_of_part hparts he
  | ok x =>
    rcases ha with ⟨hleft, i, rfl, hi⟩
    rw [hleft, Option.none_or] at hparts
    cases b with
    | error e =>
      rcases hb with ⟨part, hpart, he⟩
      exact settles_of_part (hparts.trans hpart) he
    | ok y =>
      rcases hb with ⟨hright, j, rfl, hj⟩
      exact (answers_combined hop hi hj).settles (hparts.trans hright)

end

/-! ## Evaluation -/

section

variable {σ : Type} {scope : Scope σ} {m : Machine σ}

/-- Four bytes are room for an integer. -/
theorem Stack.overflow?_int {s : Stack} (hroom : s.length + 4 ≤ s.capacity) (v : Int32) :
    s.overflow? (.int v) = none := by
  simp [overflow?, Value.kind, Kind.slots, Kind.width, hroom]

/-- A sign is applied to what its operand comes to. -/
theorem perform_evalValue_unary {op : Op} {operand : Node} {a : Except EvalError Value}
    (harity : op.arity = 1) (ha : (evalValue operand).perform scope m = (a, m))
    (hroom : ∀ v, a >>= evaluateUnary op = .ok v → m.stack.overflow? v = none) :
    (evalValue (.apply op [operand])).perform scope m = (a >>= evaluateUnary op, m) := by
  rw [evalValue] at ha
  rw [evalValue, eval_unary harity, popped_bind, perform_bind, ha]
  cases a with
  | error e => rfl
  | ok v => exact perform_popped_found rfl hroom

/-- On plain values, an operator asks nobody. -/
theorem perform_evaluateBinary_of_isPlain (op : Op) {x y : Value} (hx : x.isPlain = true)
    (hy : y.isPlain = true) :
    (do onWorldExcept (evaluateBinary (← objects) op x y) : EvalM σ Value).perform scope m
      = (evaluateKnown "" op x y, m) := by
  have hrun := run_evaluateBinary_of_isPlain scope.objects op hx hy m.world
  show (((evaluateBinary scope.objects op x y).run m.world).1,
    { m with world := ((evaluateBinary scope.objects op x y).run m.world).2 }) = _
  rw [hrun]

/-- An operator that needs both operands is applied to what they come to. -/
theorem perform_evalValue_binary {op : Op} {left right : Node} {a b : Except EvalError Value}
    (hop : op.isStrict = true) (harity : op.arity = 2)
    (ha : (evalValue left).perform scope m = (a, m))
    (hb : (evalValue right).perform scope m = (b, m))
    (haplain : ∀ x, a = .ok x → x.isPlain = true) (hbplain : ∀ y, b = .ok y → y.isPlain = true)
    (hroom : ∀ v, (a >>= fun x => b >>= evaluateKnown "" op x) = .ok v →
      m.stack.overflow? v = none) :
    (evalValue (.apply op [left, right])).perform scope m
      = (a >>= fun x => b >>= evaluateKnown "" op x, m) := by
  have hmember : op ≠ .member := by
    rintro rfl
    cases hop
  have hassign : op ≠ .assign := by
    rintro rfl
    cases hop
  rw [evalValue] at ha hb
  rw [evalValue, eval_binary harity hmember hassign, popped_bind, perform_bind, ha]
  cases a with
  | error e => rfl
  | ok x =>
    -- No left operand decides the result, so the right one is evaluated.
    simp only [decided?_of_isStrict hop]
    rw [popped_bind, perform_bind, hb]
    cases b with
    | error e => rfl
    | ok y =>
      exact perform_popped_found
        (perform_evaluateBinary_of_isPlain op (haplain x rfl) (hbplain y rfl)) hroom

/-- Evaluating a tree of integers comes to what it should. -/
theorem Node.Arithmetic.settles {n : Node} (h : n.Arithmetic)
    (hroom : m.stack.length + 4 ≤ m.stack.capacity) :
    ∃ outcome, (evalValue n).perform scope m = (outcome, m) ∧ n.Settles outcome := by
  -- Results are integers, and there is room for one.
  have hfits : ∀ {k : Node} {outcome : Except EvalError Value}, k.Settles outcome →
      ∀ v, outcome = .ok v → m.stack.overflow? v = none := by
    rintro k outcome hsettles v rfl
    rcases hsettles with ⟨-, i, rfl, -⟩
    exact Stack.overflow?_int hroom i
  have hplain : ∀ {k : Node} {outcome : Except EvalError Value}, k.Settles outcome →
      ∀ v, outcome = .ok v → v.isPlain = true := by
    rintro k outcome hsettles v rfl
    rcases hsettles with ⟨-, i, rfl, -⟩
    rfl
  induction h with
  | literal v =>
    refine ⟨.ok (.int v), ?_, settles_int v⟩
    rw [evalValue, eval_of_literal? rfl]
    show (popped (pushValue (.int v))).perform scope m = _
    rw [perform_popped_pushValue, Stack.overflow?_int hroom v]
  | @signed op operand hop _ ih =>
    rcases ih with ⟨a, ha, hoperand⟩
    have harity : op.arity = 1 := by
      cases op <;> first | rfl | cases hop
    have hsettles := settles_signed hop hoperand
    exact ⟨_, perform_evalValue_unary harity ha (hfits hsettles), hsettles⟩
  | @combined op left right hop _ _ ihleft ihright =>
    rcases ihleft with ⟨a, ha, hleft⟩
    rcases ihright with ⟨b, hb, hright⟩
    have harity : op.arity = 2 := by
      cases op <;> first | rfl | cases hop
    have hstrict : op.isStrict = true := by
      cases op <;> first | rfl | cases hop
    have hsettles := settles_combined hop hleft hright
    exact ⟨_, perform_evalValue_binary hstrict harity ha hb (hplain hleft) (hplain hright)
      (hfits hsettles), hsettles⟩

/-- Evaluated where four bytes of the stack are free, a tree of integers comes to an integer exactly
if each of its parts has an exact value of 32 bits and is not the remainder of the least integer by
`-1`.  The integer is the exact value of the tree.  Otherwise the error is the complaint about the
first part for which this fails, operands before their operation and from left to right.  Stack and
world stay as they are. -/
theorem evalValue_of_arithmetic {n : Node} (h : n.Arithmetic)
    (hroom : m.stack.length + 4 ≤ m.stack.capacity) :
    ((∃ v, (evalValue n).perform scope m = (.ok (.int v), m)) ↔
      ∀ part ∈ n.subtrees, part.isExact = true) ∧
    (∀ v m', (evalValue n).perform scope m = (.ok v, m') →
      ∃ i : Int32, v = .int i ∧ n.exactValue? = some i.toInt ∧ m' = m) ∧
    ∀ e m', (evalValue n).perform scope m = (.error e, m') ↔
      m' = m ∧ ∃ part, n.firstOffender? = some part ∧ part.complaint? = some e := by
  have hoperation : ∃ outcome, (evalValue n).perform scope m = (outcome, m) ∧ n.Settles outcome :=
    h.settles hroom
  rcases hoperation with ⟨outcome, hrun, hsettles⟩
  rw [hrun, ← Node.firstOffender?_eq_none_iff]
  cases outcome with
  | ok v =>
    rcases hsettles with ⟨hexact, i, rfl, hvalue⟩
    refine ⟨⟨fun _ => hexact, fun _ => ⟨i, rfl⟩⟩, ?_, ?_⟩
    · rintro _ _ ⟨⟩
      exact ⟨i, rfl, hvalue, rfl⟩
    · intro e m'
      simp [hexact]
  | error e =>
    rcases hsettles with ⟨part, hpart, he⟩
    refine ⟨by simp [hpart], by simp, fun e' m' => ⟨?_, ?_⟩⟩
    · rintro ⟨⟩
      exact ⟨rfl, part, hpart, he⟩
    · rintro ⟨rfl, part', hpart', he'⟩
      obtain rfl : part = part' := Option.some.inj (hpart.symm.trans hpart')
      rw [Option.some.inj (he.symm.trans he')]

end

/-- In `(7 / 0) + (2147483647 + 1)` two parts are not exact, and neither is the whole.  It is the
division that is complained of, here on a stack that could not hold an object. -/
theorem evalValue_of_arithmetic_two_faults :
    let division : Node := .apply .div [.int 7, .int 0]
    let n : Node := .apply .add [division, .apply .add [.int 2147483647, .int 1]]
    let m : Machine Unit := ⟨⟨4, 0, [], []⟩, ⟨(), 0⟩⟩
    n.Arithmetic ∧ m.stack.length + 4 ≤ m.stack.capacity ∧
      n.firstOffender? = some division ∧ division.complaint? = some .divisionByZero ∧
      (evalValue n).perform .blank m = (.error .divisionByZero, m) := by
  intro division n m
  have harithmetic : n.Arithmetic :=
    .combined rfl (.combined rfl (.literal 7) (.literal 0))
      (.combined rfl (.literal 2147483647) (.literal 1))
  have hroom : m.stack.length + 4 ≤ m.stack.capacity := by decide
  have hfirst : n.firstOffender? = some division := rfl
  have hcomplaint : division.complaint? = some .divisionByZero := rfl
  exact ⟨harithmetic, hroom, hfirst, hcomplaint,
    ((evalValue_of_arithmetic harithmetic hroom).2.2 _ m).mpr ⟨rfl, division, hfirst, hcomplaint⟩⟩

end Edict
