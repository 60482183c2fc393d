import Edict.Instruction

/-! # Native functions

A native function works on values of native types.  Its arguments are evaluated, converted toward
the types of its parameters and read as them; its result becomes a value on the stack.  Arguments
that are not given are taken from the defaults of the last parameters, and arguments beyond the
parameters are not even evaluated.
-/

namespace Edict

/-- One value for each of the types. -/
def Arguments {σ : Type} : List (NativeType σ) → Type
  | [] => Unit
  | t :: ts => t.Carrier × Arguments ts

/-- A type that a native function can return.  A host may add types to the ready-made ones. -/
structure ReturnType (σ : Type) where
  /-- The results of the type. -/
  Carrier : Type
  /-- Leaves a result of the function of a name on the stack and tells where, or fails. -/
  leave : (function : String) → Carrier → ExceptT Error (StateM (Evaluator σ)) ValueInfo

namespace ReturnType

variable {σ : Type}

/-- Results that stand for a value. -/
@[reducible] def ofValue {α : Type} (toValue : α → Value) : ReturnType σ where
  Carrier := α
  leave _ a := fun ev =>
    let (outcome, ev) := ev.perform (EvalM.pushValue (toValue a))
    (outcome.mapError .eval, ev)

@[reducible] def int : ReturnType σ := ofValue Value.int

@[reducible] def float : ReturnType σ := ofValue Value.float

@[reducible] def bool : ReturnType σ := ofValue Value.bool

@[reducible] def string : ReturnType σ := ofValue Value.str

@[reducible] def value : ReturnType σ := ofValue id

@[reducible] def object : ReturnType σ := ofValue Value.object

@[reducible] def maybe : ReturnType σ :=
  ofValue fun (v? : Option ObjectRef) => (v?.map Value.object).getD .null

@[reducible] def unit : ReturnType σ := ofValue fun () => .void

/-- Results of a type, or a text that tells why there is none. -/
@[reducible] def orFailure (t : ReturnType σ) : ReturnType σ where
  Carrier := Except String t.Carrier
  leave function
    | .ok a => t.leave function a
    | .error text => throw (.binding (.nativeFailure function text))

end ReturnType

/-- What a native function does with its arguments. -/
inductive NativeBody (σ τ : Type) (parameters : List (NativeType σ)) (α : Type) where
  /-- Works on the world alone. -/
  | detached (run : Arguments parameters → StateM (World σ) α)
  /-- Works on the context that the instruction runs against. -/
  | contextual (run : Arguments parameters → StateM (Context σ τ) α)

structure NativeFunction (σ τ : Type) where
  name : String
  parameters : List (NativeType σ)
  result : ReturnType σ
  body : NativeBody σ τ parameters result.Carrier
  /-- Values for the last parameters. -/
  defaults : List Value

namespace NativeFunction

variable {σ τ : Type}

def arity (f : NativeFunction σ τ) : Nat := f.parameters.length

def needsContext (f : NativeFunction σ τ) : Bool :=
  match f.body with
  | .detached _ => false
  | .contextual _ => true

/-- The function with other defaults; of too many the first ones are dropped. -/
def withDefaults (f : NativeFunction σ τ) (defaults : List Value) : NativeFunction σ τ :=
  { f with defaults := defaults.drop (defaults.length - f.arity) }

/-- How many arguments must be given. -/
def required (f : NativeFunction σ τ) : Nat := f.arity - f.defaults.length

/-- Reads values as parameters from position `index` on; a missing one is `void`. -/
def bindFrom (function : String) (converters : Converters σ) :
    (index : Nat) → (parameters : List (NativeType σ)) → List Value →
      ExceptT Error (StateM (World σ)) (Arguments parameters)
  | _, [], _ => pure ()
  | index, t :: ts, values => do
    let v ← ((converters.convert (values.head?.getD .void) t.id).adapt Error.eval)
    match ← ExceptT.lift (t.read? v) with
    | none => throw (.binding (.argumentType function index t.label v.kind))
    | some a =>
      let rest ← bindFrom function converters (index + 1) ts values.tail
      return (a, rest)

/-- Runs the body and leaves the result on the stack. -/
def run (f : NativeFunction σ τ) (arguments : Arguments f.parameters) : CallM σ τ ValueInfo := do
  let result ← match f.body with
    | .detached run => CallM.host (ExceptT.lift (run arguments))
    | .contextual run => CallM.onContext (run arguments)
  CallM.onEvaluator (f.result.leave f.name result)

/-- The values of argument expressions, evaluated from left to right. -/
def evalArguments : List Node → CallM σ τ (List Value)
  | [] => pure []
  | arg :: args => do
    let v ← CallM.evaluate (evalValue arg)
    let vs ← evalArguments args
    return v :: vs

/-- Calls the function on argument expressions. -/
def invoke (f : NativeFunction σ τ) (args : List Node) : CallM σ τ ValueInfo := do
  if args.length < f.required then
    throw (.binding (.insufficientArguments f.name f.required args.length))
  let given ← evalArguments (args.take f.arity)
  let missing := f.arity - given.length
  let values := given ++ f.defaults.drop (f.defaults.length - missing)
  let converters := (← CallM.context).evaluator.converters
  let arguments ← CallM.host (bindFrom f.name converters 0 f.parameters values)
  f.run arguments

/-- The function as instructions call it. -/
def toFunction (f : NativeFunction σ τ) : Function σ τ := ⟨f.name, f.invoke⟩

def dump (f : NativeFunction σ τ) : String :=
  dumpRecord "ConvertedFunction"
    [("name", Text.quoted f.name), ("arity", toString f.arity),
      ("needs_context", boolText f.needsContext),
      ("defaults", dumpList (f.defaults.map Value.dump))]
    true

end NativeFunction

end Edict
