import Edict.Instruction
import Edict.Parser.Expression

/-! # Interpreters

An interpreter knows functions and modifiers by name, builds instructions from text, and keeps those
it has built for execution.  Whatever changes the meaning of a name empties the cache.  A session is
an interpreter together with the context that its instructions run against.
-/

namespace Edict

/-! ## A bounded cache

The cache keeps what was built from a text under that text.  When it is full, the entry that came
first goes first.
-/

/-- Entries by text, at most `capacity` of them. -/
structure Cache (α : Type) where
  capacity : Nat
  entries : Table String α
  /-- The texts in the order in which they came, oldest first. -/
  order : List String
deriving Inhabited

namespace Cache

variable {α : Type}

def ofCapacity (capacity : Nat) : Cache α := ⟨capacity, .empty, []⟩

/-- What is kept under a text. -/
def find? (c : Cache α) (text : String) : Option α := c.entries.find? text

def contains (c : Cache α) (text : String) : Bool := c.entries.contains text

def size (c : Cache α) : Nat := c.entries.size

def clear (c : Cache α) : Cache α := ⟨c.capacity, .empty, []⟩

/-- Drops the oldest entries until there is room for one more; all, if the order does not tell which
are the oldest. -/
def makeRoom (capacity : Nat) :
    Table String α → List String → Table String α × List String
  | entries, [] => if capacity ≤ entries.size then (.empty, []) else (entries, [])
  | entries, oldest :: order =>
    if capacity ≤ entries.size then makeRoom capacity (entries.erase oldest) order
    else (entries, oldest :: order)

/-- The cache with a new entry.  One without capacity stays empty. -/
def insert (c : Cache α) (text : String) (a : α) : Cache α :=
  if c.capacity = 0 then c
  else
    let (entries, order) := makeRoom c.capacity c.entries c.order
    ⟨c.capacity, entries.insert text a, order ++ [text]⟩

end Cache

/-! ## What an interpreter knows -/

/-- How an interpreter works. -/
structure Config where
  /-- Whether argument expressions are folded when an instruction is built. -/
  optimizeOnBuild : Bool := true
  /-- How many instructions are kept for execution. -/
  cacheCapacity : Nat := 256
  output : Output := .stdout ""
deriving Inhabited

/-- Knows the functions and modifiers and runs instructions. -/
structure Interpreter (σ τ : Type) where
  functions : Table String (Function σ τ)
  modifiers : Table String (Modifier σ τ)
  cache : Cache (Instruction σ τ)
  optimizeOnBuild : Bool
  output : Output

namespace Interpreter

variable {σ τ : Type}

/-! ## Names -/

def clearCache (i : Interpreter σ τ) : Interpreter σ τ := { i with cache := i.cache.clear }

/-- Registers a function and tells whether it replaces another one of its name. -/
def registerFunction (f : Function σ τ) (i : Interpreter σ τ) : Bool × Interpreter σ τ :=
  (i.functions.contains f.name,
    { i with functions := i.functions.insert f.name f, cache := i.cache.clear })

/-- Removes a function and tells whether there was one. -/
def unregisterFunction (name : String) (i : Interpreter σ τ) : Bool × Interpreter σ τ :=
  if i.functions.contains name then
    (true, { i with functions := i.functions.erase name, cache := i.cache.clear })
  else (false, i)

/-- Registers a modifier and tells whether it replaces another one of its name. -/
def registerModifier (m : Modifier σ τ) (i : Interpreter σ τ) : Bool × Interpreter σ τ :=
  (i.modifiers.contains m.name,
    { i with modifiers := i.modifiers.insert m.name m, cache := i.cache.clear })

/-- Removes a modifier and tells whether there was one. -/
def unregisterModifier (name : String) (i : Interpreter σ τ) : Bool × Interpreter σ τ :=
  if i.modifiers.contains name then
    (true, { i with modifiers := i.modifiers.erase name, cache := i.cache.clear })
  else (false, i)

/-- An interpreter that knows `Print`, `Evaluate` and `neg`. -/
def ofConfig (config : Config) : Interpreter σ τ where
  functions := (Table.empty.insert "Print" .printer).insert "Evaluate" .evaluator
  modifiers := Table.empty.insert "neg" .negator
  cache := .ofCapacity config.cacheCapacity
  optimizeOnBuild := config.optimizeOnBuild
  output := config.output

def function (i : Interpreter σ τ) (name : String) : Except Error (Function σ τ) :=
  match i.functions.find? name with
  | some f => .ok f
  | none => .error (.binding (.undefinedFunction name))

/-- The modifiers of several names; the first unknown name is an error. -/
def modifiersOf (i : Interpreter σ τ) : List String → Except Error (List (Modifier σ τ))
  | [] => .ok []
  | name :: names =>
    match i.modifiers.find? name with
    | none => .error (.binding (.undefinedModifier name))
    | some m => do
      let ms ← i.modifiersOf names
      return m :: ms

/-! ## Building -/

def tokens (text : String) : Except Error (List Token) := (tokenize text).mapError .lex

/-- The instruction of its parts, folded if the interpreter is to do so. -/
def finish (i : Interpreter σ τ) (source : String) (f : Function σ τ) (parameters : List Node)
    (modifiers : List (Modifier σ τ)) : CallM σ τ (Instruction σ τ) :=
  let instruction : Instruction σ τ := ⟨source, f, parameters, modifiers, false⟩
  if i.optimizeOnBuild then instruction.optimize else pure instruction

/-- Builds the instruction that a text writes. -/
def build (i : Interpreter σ τ) (text : String) : CallM σ τ (Instruction σ τ) := do
  let (f, parsed, modifiers) ← CallM.ofOutcome do
    let parsed ← (parseInstruction (← tokens text)).mapError .parse
    let f ← i.function parsed.function
    let modifiers ← i.modifiersOf parsed.modifiers
    return (f, parsed, modifiers)
  i.finish text f parsed.parameters modifiers

/-- The text of an instruction of parts. -/
def sourceOfParts (function parameters : String) (modifiers : List String) : String :=
  function ++ ": " ++ parameters
    ++ (if modifiers = [] then "" else " -> " ++ ", ".intercalate modifiers)

/-- Builds an instruction of the name of a function, the text of its arguments and the names of
modifiers with commas between them. -/
def buildParts (i : Interpreter σ τ) (function parameters modifiers : String) :
    CallM σ τ (Instruction σ τ) := do
  let names := Text.commaNames modifiers
  let (f, nodes, ms) ← CallM.ofOutcome do
    let f ← i.function function
    let nodes ← (parseParameterList (← tokens parameters)).mapError .parse
    let ms ← i.modifiersOf names
    return (f, nodes, ms)
  i.finish (sourceOfParts function parameters names) f nodes ms

/-- The one expression that each of the texts writes. -/
def singleExpressions : List String → Except Error (List Node)
  | [] => .ok []
  | text :: texts => do
    let node ← (parseSingleExpression (← tokens text)).mapError .parse
    let nodes ← singleExpressions texts
    return node :: nodes

/-- Builds an instruction of the name of a function and one text for each argument. -/
def buildFromParameters (i : Interpreter σ τ) (function : String) (parameters : List String) :
    CallM σ τ (Instruction σ τ) := do
  let (f, nodes) ← CallM.ofOutcome do
    let f ← i.function function
    let nodes ← singleExpressions parameters
    return (f, nodes)
  i.finish (sourceOfParts function (", ".intercalate parameters) []) f nodes []

def dump (i : Interpreter σ τ) : String :=
  dumpRecord "Interpreter"
    [("functions", dumpList (i.functions.names.map Text.quoted)),
      ("modifiers", dumpList (i.modifiers.names.map Text.quoted)),
      ("cached", toString i.cache.size), ("optimize_on_build", boolText i.optimizeOnBuild),
      ("cache_capacity", toString i.cache.capacity), ("print_handler", i.output.dump)]
    true

end Interpreter

/-! ## Sessions -/

/-- An interpreter and a context. -/
structure Session (σ τ : Type) where
  interpreter : Interpreter σ τ
  context : Context σ τ

/-- A step of a session, with a result of type `α`. -/
abbrev SessionM (σ τ : Type) (α : Type) : Type := ExceptT Error (StateM (Session σ τ)) α

namespace Session

variable {σ τ α : Type}

/-- Runs a step on the context and on the destination of printed text. -/
def call (act : CallM σ τ α) : SessionM σ τ α := fun s =>
  let (outcome, r) := act.run ⟨s.context, s.interpreter.output⟩
  (outcome, ⟨{ s.interpreter with output := r.output }, r.context⟩)

theorem run_call {act : CallM σ τ α} {s : Session σ τ} {outcome : Except Error α} {r : Runtime σ τ}
    (h : act.run ⟨s.context, s.interpreter.output⟩ = (outcome, r)) :
    (call act).run s = (outcome, ⟨{ s.interpreter with output := r.output }, r.context⟩) := by
  simp only [call, ExceptT.run] at h ⊢
  rw [h]

/-- Two steps on the context in a row are one. -/
theorem call_bind {β : Type} (act : CallM σ τ α) (next : α → CallM σ τ β) :
    (do call (next (← call act)) : SessionM σ τ β) = call (act >>= next) := by
  funext s
  show (call act >>= fun a => call (next a)).run s = (call (act >>= next)).run s
  rcases hact : act.run ⟨s.context, s.interpreter.output⟩ with ⟨e | a, r⟩
  · have hboth : (act >>= next).run ⟨s.context, s.interpreter.output⟩ = (.error e, r) := by
      rw [run_bind, hact]
    rw [run_bind, run_call hact, run_call hboth]
  · rcases hnext : (next a).run r with ⟨outcome, r'⟩
    have hboth : (act >>= next).run ⟨s.context, s.interpreter.output⟩ = (outcome, r') := by
      rw [run_bind, hact, ← hnext]
    rw [run_bind, run_call hact, run_call hboth]
    exact run_call hnext

/-- The instruction of a text: the one that was kept, or a new one, which is kept from now on. -/
def cachedInstruction (text : String) : SessionM σ τ (Instruction σ τ) := do
  match (← get).interpreter.cache.find? text with
  | some instruction => return instruction
  | none =>
    let instruction ← call ((← get).interpreter.build text)
    modify fun s =>
      { s with interpreter.cache := s.interpreter.cache.insert instruction.source instruction }
    return instruction

variable [Observer σ τ]

/-- Runs the instruction that a text writes and tells where the result was left. -/
def execute (text : String) : SessionM σ τ ValueInfo := do
  call (← cachedInstruction text).execute

/-- Runs the instruction that a text writes and pops its result as a native type. -/
def executeAs (t : NativeType σ) (text : String) : SessionM σ τ t.Carrier := do
  call ((← cachedInstruction text).executeAs t)

/-- Evaluates the expression that a text writes and pops its value as a native type.  Nothing is
folded or kept. -/
def evaluateExpression (t : NativeType σ) (text : String) : SessionM σ τ t.Carrier := do
  let node ← call (CallM.ofOutcome do
    (parseSingleExpression (← Interpreter.tokens text)).mapError .parse)
  call (CallM.restoring do
    CallM.popAs t (← CallM.evaluate (eval node)))

end Session

end Edict
