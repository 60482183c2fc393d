import Edict.Evaluation.Evaluator
import Edict.Parser.Error
import Edict.Token.Lexer

/-! # What instructions run against

A context is an evaluator and what the host notes down next to it.  While an instruction runs it can
also reach the destination of printed text.
-/

namespace Edict

/-! ## Errors of instructions -/

/-- Why an instruction cannot be bound to its function, arguments, modifiers or result. -/
inductive BindingError where
  | undefinedFunction (name : String)
  | undefinedModifier (name : String)
  | insufficientArguments (function : String) (needed given : Nat)
  /-- An argument, counted from zero, that is not of the type of its parameter, whose label is
  `expected`. -/
  | argumentType (function : String) (index : Nat) (expected : String) (found : Kind)
  | returnTypeMismatch (expected : String) (found : Kind)
  | unsupportedModifierKind (modifier : String) (kind : Kind)
  /-- A native function reports an error of its own. -/
  | nativeFailure (function message : String)
deriving DecidableEq, Repr, Inhabited

/-- Everything that can go wrong between the text of an instruction and its result. -/
inductive Error where
  | lex (e : LexError)
  | parse (e : ParseError)
  | eval (e : EvalError)
  | binding (e : BindingError)
deriving DecidableEq, Repr, Inhabited

def BindingError.message : BindingError → String
  | undefinedFunction name => "undefined function `" ++ name ++ "`"
  | undefinedModifier name => "undefined return modifier `" ++ name ++ "`"
  | insufficientArguments function needed given =>
    "insufficient argument count for `" ++ function ++ "`: " ++ toString needed ++ " required, "
      ++ toString given ++ " given"
  | argumentType function index expected found =>
    "argument " ++ toString index ++ " of `" ++ function ++ "` expects " ++ expected
      ++ ", found " ++ found.name
  | returnTypeMismatch expected found =>
    "expected a result of type " ++ expected ++ ", found " ++ found.name
  | unsupportedModifierKind modifier kind =>
    "return modifier `" ++ modifier ++ "` does not support " ++ kind.name
  | nativeFailure function message => "`" ++ function ++ "` failed: " ++ message

def Error.message : Error → String
  | lex e => e.message
  | parse e => e.message
  | eval e => e.message
  | binding e => e.message

/-! ## Where printed text goes -/

/-- The destination of printed text. -/
inductive Output where
  /-- The standard output of the process; `waiting` is the text that it has not been given yet. -/
  | stdout (waiting : String)
  /-- Kept to be read back. -/
  | buffer (text : String)
  /-- Dropped. -/
  | silent
deriving DecidableEq, Repr, Inhabited

namespace Output

def print (text : String) : Output → Output
  | stdout waiting => stdout (waiting ++ text)
  | buffer captured => buffer (captured ++ text)
  | silent => silent

def printLine (text : String) (out : Output) : Output := out.print (text ++ "\n")

/-- The text that was kept; none unless it is kept at all. -/
def captured : Output → String
  | buffer text => text
  | stdout _ | silent => ""

def clear : Output → Output
  | buffer _ => buffer ""
  | out => out

def dump : Output → String
  | stdout _ => "PrintHandler::Stdout"
  | buffer _ => "PrintHandler::Buffer"
  | silent => "PrintHandler::Silent"

end Output

/-! ## Contexts -/

/-- What instructions run against.  The notes are of a type that the host chooses. -/
structure Context (σ τ : Type) where
  evaluator : Evaluator σ
  notes : τ

def Context.stack {σ τ : Type} (c : Context σ τ) : Stack := c.evaluator.machine.stack

/-- What a running instruction can reach. -/
structure Runtime (σ τ : Type) where
  context : Context σ τ
  output : Output

/-- A step of running an instruction, with a result of type `α`. -/
abbrev CallM (σ τ : Type) (α : Type) : Type := ExceptT Error (StateM (Runtime σ τ)) α

namespace CallM

variable {σ τ α : Type}

/-- An outcome that needs nothing. -/
def ofOutcome (outcome : Except Error α) : CallM σ τ α := fun r => (outcome, r)

/-- An action of evaluation. -/
def evaluate (act : EvalM σ α) : CallM σ τ α := fun r =>
  let (outcome, evaluator) := r.context.evaluator.perform act
  (outcome.mapError .eval, { r with context := { r.context with evaluator } })

/-- An action of the host that may fail. -/
def host (act : ExceptT Error (StateM (World σ)) α) : CallM σ τ α := fun r =>
  let (outcome, world) := act.run r.context.evaluator.machine.world
  (outcome,
    { r with context.evaluator.machine.world := world })

def onEvaluator (act : ExceptT Error (StateM (Evaluator σ)) α) : CallM σ τ α := fun r =>
  let (outcome, evaluator) := act.run r.context.evaluator
  (outcome, { r with context := { r.context with evaluator } })

def onContext (act : StateM (Context σ τ) α) : CallM σ τ α := fun r =>
  let (a, context) := act.run r.context
  (.ok a, { r with context })

def context : CallM σ τ (Context σ τ) := return (← get).context

/-- Drops what a failing step has pushed on the stack. -/
def restoring (act : CallM σ τ α) : CallM σ τ α := fun r =>
  match act.run r with
  | (.ok a, r') => (.ok a, r')
  | (.error e, r') =>
    (.error e,
      { r' with context.evaluator.machine.stack := r'.context.stack.resetTo r.context.stack.mark })

/-- Pops a value as a native type.  Its kind must be the one that the type has. -/
def popAs (t : NativeType σ) (info : ValueInfo) : CallM σ τ t.Carrier := do
  if t.kind?.any (· ≠ info.kind) then
    evaluate (EvalM.removeTop info)
    throw (.binding (.returnTypeMismatch t.label info.kind))
  let v ← evaluate (EvalM.popValue info)
  match ← host (ExceptT.lift (t.read? v)) with
  | some a => return a
  | none => throw (.binding (.returnTypeMismatch t.label info.kind))

/-- An action of evaluation changes the machine and nothing else. -/
theorem run_evaluate {act : EvalM σ α} {r : Runtime σ τ} {outcome : Except EvalError α}
    {m : Machine σ}
    (h : act.perform r.context.evaluator.scope r.context.evaluator.machine = (outcome, m)) :
    (evaluate act).run r
      = (outcome.mapError .eval, { r with context.evaluator.machine := m }) := by
  simp only [evaluate, Evaluator.perform, ExceptT.run, h]

theorem run_restoring (act : CallM σ τ α) (r : Runtime σ τ) :
    (restoring act).run r = match act.run r with
      | (.ok a, r') => (.ok a, r')
      | (.error e, r') => (.error e, { r' with
          context.evaluator.machine.stack := r'.context.stack.resetTo r.context.stack.mark }) :=
  rfl

end CallM

end Edict
