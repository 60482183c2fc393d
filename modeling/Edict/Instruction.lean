import Edict.Context
import Edict.Node

/-! # Instructions

An instruction is a call that is ready to run: a function, its argument expressions and the
modifiers of the result, found under the names in a text.  A function gets its argument expressions
and leaves a result on the stack; a modifier takes a result from the stack and leaves another in its
place.  The host can watch instructions begin and complete.
-/

namespace Edict

/-! ## Functions and modifiers -/

/-- A function that instructions can call. -/
structure Function (σ τ : Type) where
  name : String
  /-- Runs the function on its argument expressions and tells where it left the result. -/
  invoke : List Node → CallM σ τ ValueInfo

/-- A modifier of results. -/
structure Modifier (σ τ : Type) where
  name : String
  /-- Takes the result at a place and tells where it left the new one. -/
  apply : ValueInfo → CallM σ τ ValueInfo

namespace Function

variable {σ τ : Type}

def firstArgument (name : String) : List Node → CallM σ τ Node
  | [] => throw (.binding (.insufficientArguments name 1 0))
  | arg :: _ => return arg

/-- Prints the string form of its first argument on a line of its own. -/
def printer : Function σ τ where
  name := "Print"
  invoke args := do
    let text ← CallM.evaluate (evalText (← firstArgument "Print" args))
    modify fun r => { r with output := r.output.printLine text }
    return .void

def evaluator : Function σ τ where
  name := "Evaluate"
  invoke args := do
    CallM.evaluate (eval (← firstArgument "Evaluate" args))

end Function

/-- The operator that negates a result of a kind. -/
def negation? : Kind → Option Op
  | .int | .float => some .neg
  | .bool => some .not
  | _ => none

/-- Changes the sign of a number and the truth of a truth value. -/
def Modifier.negator {σ τ : Type} : Modifier σ τ where
  name := "neg"
  apply info :=
    match negation? info.kind with
    | none => throw (.binding (.unsupportedModifierKind "neg" info.kind))
    | some op => CallM.evaluate do
      let operand ← EvalM.popValue info
      EvalM.pushValue (← EvalM.ofOutcome (evaluateUnary op operand))

/-! ## Calls that are ready to run -/

/-- A call that is ready to run. -/
structure Instruction (σ τ : Type) where
  /-- The text that the instruction was built from. -/
  source : String
  function : Function σ τ
  parameters : List Node
  modifiers : List (Modifier σ τ)
  /-- Whether the argument expressions have been folded. -/
  optimized : Bool

namespace Instruction

variable {σ τ : Type}

/-- The names of the modifiers, in the order in which they are applied. -/
def modifierNames (i : Instruction σ τ) : List String := i.modifiers.map (·.name)

def optimize (i : Instruction σ τ) : CallM σ τ (Instruction σ τ) := do
  if i.optimized then return i
  else
    let parameters ← CallM.evaluate (foldAll i.parameters)
    return { i with parameters, optimized := true }

def applyModifiers : List (Modifier σ τ) → ValueInfo → CallM σ τ ValueInfo
  | [], info => pure info
  | m :: ms, info => do
    let info ← m.apply info
    applyModifiers ms info

def dump (i : Instruction σ τ) : String :=
  dumpRecord "Instruction"
    [("source", Text.quoted i.source), ("function", Text.quoted i.function.name),
      ("parameters", dumpList (Node.dumps i.parameters)),
      ("modifiers", dumpList (i.modifierNames.map Text.quoted)),
      ("optimized", boolText i.optimized)]
    false

end Instruction

/-! ## Watching instructions -/

/-- What a host does when an instruction begins and when it has completed.  It may do anything that
the instruction may do, but it cannot fail. -/
class Observer (σ τ : Type) where
  /-- Comes before the function is called. -/
  begun : Instruction σ τ → StateM (Runtime σ τ) Unit := fun _ => pure ()
  /-- Comes when the modifiers have been applied, with the place of the result. -/
  completed : Instruction σ τ → ValueInfo → StateM (Runtime σ τ) Unit := fun _ _ => pure ()

/-- What a context remembers of the instructions that ran against it. -/
structure Journal where
  /-- The text of the instruction that runs. -/
  executing? : Option String
  /-- Where the result of the last instruction that completed was left. -/
  last? : Option ValueInfo
deriving DecidableEq, Repr, Inhabited

/-- The notes of a context that may keep a journal. -/
abbrev Notes := Option Journal

def Journal.blank : Journal := ⟨none, none⟩

/-- Changes the journal, if there is one. -/
def Journal.note {σ : Type} (f : Journal → Journal) : StateM (Runtime σ Notes) Unit :=
  modify fun r => { r with context.notes := r.context.notes.map f }

/-- A journal has an entry from the beginning of an instruction on, and another one when it has
completed.  A context may do without a journal. -/
instance Journal.observer {σ : Type} : Observer σ Notes where
  begun i := Journal.note fun j => { j with executing? := some i.source }
  completed _ info := Journal.note fun _ => ⟨none, some info⟩

namespace Context

variable {σ : Type}

/-- The text of the instruction that runs, if the context remembers it. -/
def executing? (c : Context σ Notes) : Option String := c.notes.bind (·.executing?)

/-- Where the last result was left, if the context remembers it. -/
def last? (c : Context σ Notes) : Option ValueInfo := c.notes.bind (·.last?)

end Context

/-! ## Running instructions -/

namespace Instruction

variable {σ τ : Type} [Observer σ τ]

/-- Calls the function and applies the modifiers, with the host told before and after. -/
def run (i : Instruction σ τ) : CallM σ τ ValueInfo := do
  ExceptT.lift (Observer.begun i)
  let info ← i.function.invoke i.parameters
  let info ← applyModifiers i.modifiers info
  ExceptT.lift (Observer.completed i info)
  return info

/-- Runs the instruction and tells where the result was left.  If it fails, what it pushed is
dropped. -/
def execute (i : Instruction σ τ) : CallM σ τ ValueInfo := CallM.restoring i.run

/-- Runs the instruction and pops the result as a native type. -/
def executeAs (i : Instruction σ τ) (t : NativeType σ) : CallM σ τ t.Carrier := do
  CallM.popAs t (← i.execute)

end Instruction

end Edict
