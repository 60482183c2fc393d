import Edict.Evaluation.Operators

namespace Edict

/-! # Which kinds an operator refuses

Before an operator is looked up for two operands, these are made alike where they can be: an integer
beside a float becomes a float, and anything but `void` beside a string becomes its string form.
`Kind.meet` tells the kinds that are left then, and `Op.isDefinedFor` is the table in which the
operator is looked up.  What is refused is refused by the name of these kinds, so the kinds of the
operands as they were are named where nothing was changed, and only there.

Main statement: `evaluateBinary_mismatch_iff`.
-/

/-- Whether the operator is defined for two numbers of one kind. -/
def Op.isNumeric : Op → Bool
  | add | sub | mul | div | mod | pow | eq | ne | lt | le | gt | ge => true
  | _ => false

/-- Whether the operator is defined for two strings. -/
def Op.isTextual : Op → Bool
  | add | eq | ne | lt | le | gt | ge => true
  | _ => false

/-- Whether the operator is defined for two truth values. -/
def Op.isLogical : Op → Bool
  | and | or | eq | ne => true
  | _ => false

/-- Whether the operator is defined for operands of the two kinds as they are. -/
def Op.isDefinedFor (op : Op) : Kind → Kind → Bool
  | .int, .int | .float, .float => op.isNumeric
  | .string, .string => op.isTextual
  | .bool, .bool => op.isLogical
  | .object, .object => op = eq ∨ op = ne
  | _, _ => false

namespace Kind

/-- Whether one of two operands is an integer that becomes a float. -/
def isPromoted : Kind → Kind → Bool
  | int, float | float, int => true
  | _, _ => false

/-- Whether one of two operands is replaced by its string form. -/
def isSpelled (left right : Kind) : Bool :=
  (left = string ∧ right ≠ string ∧ right ≠ void) ∨ (right = string ∧ left ≠ string ∧ left ≠ void)

/-- The kinds of two operands once they have been made alike. -/
def meet (left right : Kind) : Kind × Kind :=
  if isPromoted left right then (float, float)
  else if isSpelled left right then (string, string)
  else (left, right)

/-- Two kinds stay what they are exactly if neither operand is replaced. -/
theorem meet_eq_self_iff (left right : Kind) :
    meet left right = (left, right) ↔
      isPromoted left right = false ∧ isSpelled left right = false := by
  cases left <;> cases right <;> decide

end Kind

/-! ## Refusals -/

/-- Whether the outcome is that an operator is not defined for two kinds. -/
def isRefusal : Except EvalError Value → Bool
  | .error (.binaryTypeMismatch _ _ _) => true
  | _ => false

/-- The outcome refuses the operator for the two kinds exactly if it is not defined for them. -/
def Refuses (op : Op) (kinds : Kind × Kind) (outcome : Except EvalError Value) : Prop :=
  ∀ op' left right, outcome = .error (.binaryTypeMismatch op' left right) ↔
    op' = op ∧ (left, right) = kinds ∧ op.isDefinedFor left right = false

section

variable {op : Op} {left right : Kind} {outcome : Except EvalError Value}

/-- A table refuses what it lacks, and what it has it does not refuse. -/
theorem refuses_of_table
    (hundefined : op.isDefinedFor left right = false →
      outcome = .error (.binaryTypeMismatch op left right))
    (hdefined : op.isDefinedFor left right = true → isRefusal outcome = false) :
    Refuses op (left, right) outcome := by
  intro op' left' right'
  constructor
  · rintro rfl
    have h : op.isDefinedFor left right = false :=
      Bool.eq_false_iff.mpr fun h => Bool.noConfusion (hdefined h)
    cases hundefined h
    exact ⟨rfl, rfl, h⟩
  · rintro ⟨rfl, ⟨⟩, h⟩
    exact hundefined h

/-- For kinds that have no table every operator is refused. -/
theorem refuses_of_undefined (h : op.isDefinedFor left right = false) :
    Refuses op (left, right) (.error (.binaryTypeMismatch op left right)) :=
  refuses_of_table (fun _ => rfl) fun hdefined => absurd (h.symm.trans hdefined) Bool.false_ne_true

end

/-! ## The tables -/

/-- A result that does not fit is no refusal of the operands. -/
theorem isRefusal_checkedInt (operation : String) (n : Int) :
    isRefusal (checkedInt operation n) = false := by
  unfold checkedInt
  split <;> rfl

theorem isRefusal_intPow (a b : Int32) : isRefusal (intPow a b) = false := by
  dsimp only [intPow]
  split <;> rfl

theorem isRefusal_evaluateInts {op : Op} (h : op.isNumeric = true) (a b : Int32) :
    isRefusal (evaluateInts op a b) = false := by
  cases op with
  | add | sub | mul => exact isRefusal_checkedInt _ _
  | div =>
    rw [evaluateInts]
    split
    · rfl
    · exact isRefusal_checkedInt _ _
  | mod =>
    rw [evaluateInts]
    split
    · rfl
    · split
      · rfl
      · exact isRefusal_checkedInt _ _
  | pow => exact isRefusal_intPow a b
  | eq | ne | lt | le | gt | ge => rfl
  | _ => cases h

/-- Each table of operators refuses just the operators that are not defined for its kind. -/
theorem refuses_evaluateInts (op : Op) (a b : Int32) :
    Refuses op (.int, .int) (evaluateInts op a b) := by
  refine refuses_of_table (fun h => ?_) fun h => isRefusal_evaluateInts h a b
  cases op <;> first | rfl | cases h

theorem refuses_evaluateFloats (op : Op) (a b : Binary32) :
    Refuses op (.float, .float) (evaluateFloats op a b) :=
  refuses_of_table (fun h => by cases op <;> first | rfl | cases h)
    fun h => by cases op <;> first | rfl | cases h

theorem refuses_evaluateBools (op : Op) (a b : Bool) :
    Refuses op (.bool, .bool) (evaluateBools op a b) :=
  refuses_of_table (fun h => by cases op <;> first | rfl | cases h)
    fun h => by cases op <;> first | rfl | cases h

theorem refuses_evaluateStrings (op : Op) (a b : String) :
    Refuses op (.string, .string) (evaluateStrings op a b) :=
  refuses_of_table (fun h => by cases op <;> first | rfl | cases h)
    fun h => by cases op <;> first | rfl | cases h

theorem refuses_evaluateObjects (op : Op) (same : Bool) :
    Refuses op (.object, .object) (evaluateObjects op same) :=
  refuses_of_table (fun h => by cases op <;> first | rfl | cases h)
    fun h => by cases op <;> first | rfl | cases h

/-! ## All operands -/

/-- Operands of two kinds are taken for the kind that they meet in. -/
theorem refuses_evaluateKnown (t : String) (op : Op) (a b : Value) :
    Refuses op (a.kind.meet b.kind) (evaluateKnown t op a b) := by
  -- The cases of `evaluateKnown`: two numbers, two truth values, a string on either side, objects
  -- and `null`; on all other pairs no operator is defined.
  cases a with
  | void => cases b <;> exact refuses_of_undefined rfl
  | int v =>
    cases b with
    | int w => exact refuses_evaluateInts op v w
    | float w => exact refuses_evaluateFloats op (promote v) w
    | str w => exact refuses_evaluateStrings op ((Value.int v).text t) w
    | _ => exact refuses_of_undefined rfl
  | float v =>
    cases b with
    | int w => exact refuses_evaluateFloats op v (promote w)
    | float w => exact refuses_evaluateFloats op v w
    | str w => exact refuses_evaluateStrings op ((Value.float v).text t) w
    | _ => exact refuses_of_undefined rfl
  | bool v =>
    cases b with
    | bool w => exact refuses_evaluateBools op v w
    | str w => exact refuses_evaluateStrings op ((Value.bool v).text t) w
    | _ => exact refuses_of_undefined rfl
  | str v =>
    cases b with
    | void => exact refuses_of_undefined rfl
    | _ => exact refuses_evaluateStrings op v _
  | object v =>
    cases b with
    | object w => exact refuses_evaluateObjects op (v.isSame w)
    | null => exact refuses_evaluateObjects op false
    | str w => exact refuses_evaluateStrings op t w
    | _ => exact refuses_of_undefined rfl
  | null =>
    cases b with
    | object w => exact refuses_evaluateObjects op false
    | null => exact refuses_evaluateObjects op true
    | str w => exact refuses_evaluateStrings op "null" w
    | _ => exact refuses_of_undefined rfl

/-- An operator is refused for two values exactly if it is not defined for the kinds that they have
once they have been made alike, and it is these kinds that the error names beside the operator.  They
are the kinds of the values themselves exactly if neither value is replaced by a float or by its
string form.  What an object calls itself has no bearing on it, nor has anything else of the host. -/
theorem evaluateBinary_mismatch_iff {σ : Type} (host : Objects σ) (world : World σ) (op : Op)
    (a b : Value) :
    (∀ op' left right,
      ((evaluateBinary host op a b).run world).1 = .error (.binaryTypeMismatch op' left right) ↔
        op' = op ∧ (left, right) = a.kind.meet b.kind ∧ op.isDefinedFor left right = false) ∧
    (a.kind.meet b.kind = (a.kind, b.kind) ↔
      Kind.isPromoted a.kind b.kind = false ∧ Kind.isSpelled a.kind b.kind = false) :=
  ⟨refuses_evaluateKnown _ op a b, Kind.meet_eq_self_iff a.kind b.kind⟩

/-- A string and an integer are refused as two strings, and an integer and a float as two floats. -/
theorem mismatch_names_replaced_kinds :
    (((evaluateBinary {} .sub (.str "a") (.int 1)).run (⟨(), 0⟩ : World Unit)).1
        = .error (.binaryTypeMismatch .sub .string .string) ∧
      ((evaluateBinary {} .and (.int 1) (.float 2)).run (⟨(), 0⟩ : World Unit)).1
        = .error (.binaryTypeMismatch .and .float .float)) ∧
    ¬ ∀ (host : Objects Unit) (world : World Unit) (op op' : Op) (a b : Value) (left right : Kind),
      ((evaluateBinary host op a b).run world).1 = .error (.binaryTypeMismatch op' left right) →
        op' = op ∧ left = a.kind ∧ right = b.kind := by
  refine ⟨⟨rfl, rfl⟩, fun h => ?_⟩
  have hkinds := h {} ⟨(), 0⟩ .sub .sub (.str "a") (.int 1) .string .string rfl
  cases hkinds.2.2

end Edict
