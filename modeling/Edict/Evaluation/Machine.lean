import Edict.Evaluation.Scope
import Edict.Evaluation.Stack

/-! # Actions on the stack and the world

Evaluation reads the scope and changes two things: the stack and the world of the host.  Changes
stay when an action fails.
-/

namespace Edict

/-- What evaluation changes. -/
structure Machine (σ : Type) where
  stack : Stack
  world : World σ

/-- An action of evaluation with a result of type `α`. -/
abbrev EvalM (σ : Type) (α : Type) : Type :=
  ReaderT (Scope σ) (ExceptT EvalError (StateM (Machine σ))) α

namespace EvalM

variable {σ α : Type}

/-- Runs an action: its outcome and what it leaves behind. -/
def perform (act : EvalM σ α) (scope : Scope σ) (m : Machine σ) :
    Except EvalError α × Machine σ :=
  ((act.run scope).run).run m

/-- An action that only depends on the stack. -/
def onStack (f : Stack → Except CapacityError (α × Stack)) : EvalM σ α :=
  fun _ m => match f m.stack with
    | .ok (a, stack) => (.ok a, { m with stack })
    | .error e => (.error (.capacity e), m)

def onWorld (f : StateM (World σ) α) : EvalM σ α :=
  fun _ m =>
    let (a, world) := f m.world
    (.ok a, { m with world })

def onWorldExcept (f : ExceptT EvalError (StateM (World σ)) α) : EvalM σ α :=
  fun _ m =>
    let (outcome, world) := f m.world
    (outcome, { m with world })

def ofOutcome (outcome : Except EvalError α) : EvalM σ α := fun _ m => (outcome, m)

/-- Drops what a failing action has pushed. -/
def restoring (act : EvalM σ α) : EvalM σ α :=
  fun scope m => match act.perform scope m with
    | (.ok a, m') => (.ok a, m')
    | (.error e, m') => (.error e, { m' with stack := m'.stack.resetTo m.stack.mark })

/-! ## Values on the stack -/

def pushScalar {β : Type} [Scalar β] (kind : Kind) (v : β) : EvalM σ ValueInfo :=
  onStack fun s => (s.push v).map fun (offset, s) => (⟨kind, offset⟩, s)

def pushObject (kind : Kind) (v : Value) : EvalM σ ValueInfo :=
  onStack fun s => (s.pushObject v).map fun (offset, s) => (⟨kind, offset⟩, s)

/-- Pushes a value and tells where it stands. -/
def pushValue : Value → EvalM σ ValueInfo
  | .void => pure .void
  | .int v => pushScalar .int v
  | .float v => pushScalar .float v
  | .bool v => pushScalar .bool v
  | .str v => pushObject .string (.str v)
  | .object v => pushObject .object (.object v)
  | .null => pushObject .object .null

def popScalar (β : Type) [Scalar β] : EvalM σ β := onStack fun s => s.pop β

/-- Pops the value that stands on top. -/
def popValue (info : ValueInfo) : EvalM σ Value :=
  match info.kind with
  | .void => pure .void
  | .int => return .int (← popScalar Int32)
  | .float => return .float (← popScalar Binary32)
  | .bool => return .bool (← popScalar Bool)
  | .string | .object => onStack Stack.popObject

/-- The value at a place, which stays there. -/
def getValue (info : ValueInfo) : EvalM σ Value :=
  onStack fun s => do
    let v ← match info.kind with
      | .void => .ok .void
      | .int => (s.get Int32 info.offset).map .int
      | .float => (s.get Binary32 info.offset).map .float
      | .bool => (s.get Bool info.offset).map .bool
      | .string | .object => s.getObject info.offset
    return (v, s)

/-- Pops a value and drops it. -/
def removeTop (info : ValueInfo) : EvalM σ Unit := do
  let _ ← popValue info

/-- How the host answers for its objects. -/
def objects : EvalM σ (Objects σ) := do
  return (← read).objects

def textOf (v : Value) : EvalM σ String := do
  onWorld ((← objects).textOf v)

/-- Pops a value as its string form. -/
def popText (info : ValueInfo) : EvalM σ String := do
  textOf (← popValue info)

/-- The string form of the value at a place. -/
def getText (info : ValueInfo) : EvalM σ String := do
  textOf (← getValue info)

def clearStack : EvalM σ Unit := onStack fun s => .ok ((), s.clear)

/-- Pops what an action leaves on the stack. -/
def popped (act : EvalM σ ValueInfo) : EvalM σ Value := do
  popValue (← act)

end EvalM

end Edict
