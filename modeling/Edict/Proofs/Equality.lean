import Edict.Proofs.FloatEquality

namespace Edict

open Binary32 (floatEq_comm floatEq_self)

/-! # Equality of values

Every pair of values finds its table: numbers are compared as floats if one of them is a float,
anything with a string as strings, and objects by identity.  Each table answers `==` alike from both
sides and `!=` with the opposite.  All but the table of floats answer that a value equals itself.
An object beside a string is asked for its string form, and this is the same question on either side.

Main statement: `equality_comm_and_self_iff`.
-/

/-! ## Tables -/

/-- The two outcomes are the same result, or both are errors. -/
def SameResult (first second : Except EvalError Value) : Prop :=
  ∀ result, first = .ok result ↔ second = .ok result

theorem SameResult.of_eq {first second : Except EvalError Value} (h : first = second) :
    SameResult first second := by
  rintro result
  rw [h]

/-- Two errors have no result to differ in. -/
theorem sameResult_error (e e' : EvalError) : SameResult (.error e) (.error e') := by
  rintro result
  constructor
  · rintro ⟨⟩
  · rintro ⟨⟩

theorem evaluateInts_comm (a b : Int32) : evaluateInts .eq a b = evaluateInts .eq b a := by
  rw [evaluateInts, evaluateInts, decide_eq_decide.mpr eq_comm]

theorem evaluateFloats_comm (a b : Binary32) : evaluateFloats .eq a b = evaluateFloats .eq b a := by
  rw [evaluateFloats, evaluateFloats, floatEq_comm]

theorem evaluateBools_comm (a b : Bool) : evaluateBools .eq a b = evaluateBools .eq b a := by
  rw [evaluateBools, evaluateBools, decide_eq_decide.mpr eq_comm]

theorem evaluateStrings_comm (a b : String) :
    evaluateStrings .eq a b = evaluateStrings .eq b a := by
  rw [evaluateStrings, evaluateStrings, decide_eq_decide.mpr eq_comm]

/-- Identity does not depend on the order. -/
theorem isSame_comm (a b : ObjectRef) : a.isSame b = b.isSame a :=
  decide_eq_decide.mpr eq_comm

/-- Two operands of whatever kinds are as equal as they are the other way round. -/
theorem sameResult_evaluateKnown (t : String) (v w : Value) :
    SameResult (evaluateKnown t .eq v w) (evaluateKnown t .eq w v) := by
  -- Each pair of kinds that has a table has the same table the other way round.
  cases v with
  | void => cases w <;> exact sameResult_error _ _
  | int a =>
    cases w with
    | int b => exact .of_eq (evaluateInts_comm a b)
    | float b => exact .of_eq (evaluateFloats_comm (promote a) b)
    | str b => exact .of_eq (evaluateStrings_comm ((Value.int a).text t) b)
    | _ => exact sameResult_error _ _
  | float a =>
    cases w with
    | int b => exact .of_eq (evaluateFloats_comm a (promote b))
    | float b => exact .of_eq (evaluateFloats_comm a b)
    | str b => exact .of_eq (evaluateStrings_comm ((Value.float a).text t) b)
    | _ => exact sameResult_error _ _
  | bool a =>
    cases w with
    | bool b => exact .of_eq (evaluateBools_comm a b)
    | str b => exact .of_eq (evaluateStrings_comm ((Value.bool a).text t) b)
    | _ => exact sameResult_error _ _
  | str a =>
    cases w with
    | void => exact sameResult_error _ _
    | _ => exact .of_eq (evaluateStrings_comm a _)
  | object a =>
    cases w with
    | object b => exact .of_eq (congrArg (evaluateObjects .eq) (isSame_comm a b))
    | null => exact .of_eq rfl
    | str b => exact .of_eq (evaluateStrings_comm t b)
    | _ => exact sameResult_error _ _
  | null =>
    cases w with
    | object b => exact .of_eq rfl
    | null => exact .of_eq rfl
    | str b => exact .of_eq (evaluateStrings_comm "null" b)
    | _ => exact sameResult_error _ _

/-- One outcome is a truth value and the other its negation, or both are errors. -/
inductive Opposed : Except EvalError Value → Except EvalError Value → Prop
  | answers (b : Bool) : Opposed (.ok (.bool b)) (.ok (.bool !b))
  | errors (e e' : EvalError) : Opposed (.error e) (.error e')

theorem opposed_decide (p : Prop) [Decidable p] :
    Opposed (.ok (.bool p)) (.ok (.bool ¬p)) := by
  rw [decide_not]
  exact .answers _

/-- Two operands are unequal just if they are not equal, and both tests fail alike. -/
theorem opposed_evaluateKnown (t : String) (v w : Value) :
    Opposed (evaluateKnown t .eq v w) (evaluateKnown t .ne v w) := by
  -- Each table has `==` and `!=` side by side, and those that lack one lack both.
  cases v with
  | void => cases w <;> exact .errors _ _
  | int a =>
    cases w with
    | int b => exact opposed_decide (a = b)
    | float b => exact .answers _
    | str b => exact opposed_decide _
    | _ => exact .errors _ _
  | float a =>
    cases w with
    | int b => exact .answers _
    | float b => exact .answers _
    | str b => exact opposed_decide _
    | _ => exact .errors _ _
  | bool a =>
    cases w with
    | bool b => exact opposed_decide (a = b)
    | str b => exact opposed_decide _
    | _ => exact .errors _ _
  | str a =>
    cases w with
    | void => exact .errors _ _
    | _ => exact opposed_decide _
  | object a =>
    cases w with
    | object b | null => exact .answers _
    | str b => exact opposed_decide _
    | _ => exact .errors _ _
  | null =>
    cases w with
    | object b | null => exact .answers _
    | str b => exact opposed_decide _
    | _ => exact .errors _ _

/-- A float equals itself just if it is finite. -/
theorem evaluateKnown_float_self (t : String) (x : Binary32) :
    evaluateKnown t .eq (.float x) (.float x) = .ok (.bool x.isFinite) := by
  rw [← floatEq_self]
  rfl

theorem ok_bool_eq_true_iff {b : Bool} :
    (.ok (.bool b) : Except EvalError Value) = .ok (.bool true) ↔ b = true := by
  constructor
  · intro h
    exact Value.bool.inj (Except.ok.inj h)
  · rintro rfl
    rfl

/-- A value is found equal to itself unless it is nothing or a float that is no number. -/
theorem evaluateKnown_self_iff (t : String) (v : Value) :
    evaluateKnown t .eq v v = .ok (.bool true)
      ↔ v ≠ .void ∧ ∀ x, v = .float x → x.isFinite = true := by
  cases v with
  | void =>
    constructor
    · rintro ⟨⟩
    · rintro ⟨hvoid, -⟩
      exact absurd rfl hvoid
  | float x =>
    rw [evaluateKnown_float_self, ok_bool_eq_true_iff]
    constructor
    · intro hfinite
      refine ⟨Value.noConfusion, ?_⟩
      rintro y ⟨⟩
      exact hfinite
    · rintro ⟨-, hfinite⟩
      exact hfinite x rfl
  | int _ | bool _ | str _ | object _ =>
    exact iff_of_true (ok_bool_eq_true_iff.mpr (decide_eq_true rfl))
      ⟨Value.noConfusion, fun _ => Value.noConfusion⟩
  | null => exact iff_of_true rfl ⟨Value.noConfusion, fun _ => Value.noConfusion⟩

/-! ## Equality -/

section

variable {σ : Type} (host : Objects σ) (world : World σ)

/-- Of two operands, the one object that is needed as a text is found in either place. -/
theorem askText_comm (v w : Value) : askText host v w = askText host w v := by
  cases v <;> cases w <;> rfl

/-- It makes no difference which value stands on which side of `==`, also for whether there is an
answer.  `!=` has an answer exactly if `==` has, which is the opposite.  And a value is found equal
to itself exactly if it is neither nothing nor a float that is infinite or no number.  All this holds
of every host, of any two values, and of whatever an object among them calls itself at the time. -/
theorem equality_comm_and_self_iff (v w : Value) :
    SameResult ((evaluateBinary host .eq v w).run world).1
      ((evaluateBinary host .eq w v).run world).1 ∧
    Opposed ((evaluateBinary host .eq v w).run world).1
      ((evaluateBinary host .ne v w).run world).1 ∧
    (((evaluateBinary host .eq v v).run world).1 = .ok (.bool true)
      ↔ v ≠ .void ∧ ∀ x, v = .float x → x.isFinite = true) := by
  refine ⟨?_, opposed_evaluateKnown _ v w, evaluateKnown_self_iff _ v⟩
  rw [run_evaluateBinary, run_evaluateBinary, askText_comm host w v]
  exact sameResult_evaluateKnown _ v w

end

/-- An infinity is not found equal to itself, although it is not one of the floats that are no
number: less itself it has no value, which is not small. -/
theorem infinity_unequal_to_itself :
    (((evaluateBinary {} .eq (.float ⟨0x7f800000⟩) (.float ⟨0x7f800000⟩)).run
        (⟨(), 0⟩ : World Unit)).1 = .ok (.bool false) ∧
      (⟨0x7f800000⟩ : Binary32).isNaN = false) ∧
    ¬ ∀ (host : Objects Unit) (world : World Unit) (v : Value), v ≠ .void →
      (∀ x, v = .float x → x.isNaN = false) →
        ((evaluateBinary host .eq v v).run world).1 = .ok (.bool true) := by
  have hself : ((evaluateBinary {} .eq (.float ⟨0x7f800000⟩) (.float ⟨0x7f800000⟩)).run
      (⟨(), 0⟩ : World Unit)).1 = .ok (.bool false) :=
    evaluateKnown_float_self "" ⟨0x7f800000⟩
  have hnumber : (⟨0x7f800000⟩ : Binary32).isNaN = false := by decide
  refine ⟨⟨hself, hnumber⟩, fun h => ?_⟩
  have hequal := h {} ⟨(), 0⟩ (.float ⟨0x7f800000⟩) Value.noConfusion
    (by rintro x ⟨⟩; exact hnumber)
  rw [hself] at hequal
  exact Bool.false_ne_true (ok_bool_eq_true_iff.mp hequal)

end Edict
