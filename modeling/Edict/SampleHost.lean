import Edict.Native.Function

/-! # A sample host

A small host to try the language with.  It has objects of a few types, tables of names that
expressions can read and write, and a log of what the engine asked it; functions, modifiers and
converters are to be had by name.
-/

namespace Edict

namespace SampleHost

/-- What the sample host knows of an object. -/
inductive Item where
  /-- A pair of coordinates. -/
  | vec2 (x y : Binary32)
  /-- A number of hits, which can be assigned. -/
  | counter (hits : Int32)
  /-- A sequence in which only the even positions have an element. -/
  | sparse (length : Nat)
  /-- A fixed list with three fixed members. -/
  | grid

/-- The names of one selector. -/
structure Names where
  /-- Names on their own. -/
  globals : Table String Value
  /-- Names behind any owner. -/
  members : Table String Value
  /-- Whether names that are there can be assigned. -/
  writable : Bool

/-- What the engine asked a selector. -/
inductive Request where
  | get (selector : Nat) (ownerType? : Option String) (name : String)
  | set (selector : Nat) (ownerType? : Option String) (name : String) (v : Value)

end SampleHost

open SampleHost

structure SampleHost where
  /-- What is known of objects, by identity. -/
  items : Table Nat Item
  /-- The names of the selectors, by number. -/
  names : Table Nat Names
  /-- What was asked, newest first. -/
  log : List Request

namespace SampleHost

/-- An action of the sample host. -/
abbrev Act (α : Type) := StateM (World SampleHost) α

/-- The world of a sample host in which nothing exists. -/
def world : World SampleHost := ⟨⟨.empty, .empty, []⟩, 0⟩

/-- Remembers an item under an identity. -/
def setItem (identity : Nat) (item : Item) : Act Unit :=
  modify fun w => { w with state.items := w.state.items.insert identity item }

def item? (o : ObjectRef) : Act (Option Item) :=
  return (← get).state.items.find? o.identity

def takeLog : Act (List Request) := do
  let log := (← get).state.log
  modify fun w => { w with state.log := [] }
  return log.reverse

/-! ## Objects -/

/-- An object of a type that can be asked for nothing but its string form. -/
def plainObject (identity : Nat) (type : ObjectType) (typeName : String) : ObjectRef :=
  { identity, type, typeName, elements := .none, ownsMembers := false }

def vec2Type : ObjectType := .host "Vec2"

def newVec2 (x y : Binary32) : Act ObjectRef := do
  let identity ← World.fresh
  setItem identity (.vec2 x y)
  return { plainObject identity vec2Type "Vec2" with ownsMembers := true }

def newCounter (hits : Int32) : Act ObjectRef := do
  let identity ← World.fresh
  setItem identity (.counter hits)
  return { plainObject identity (.host "Counter") "Counter" with ownsMembers := true }

/-- A new object without anything to ask it. -/
def newMarker : Act ObjectRef := do
  return plainObject (← World.fresh) (.host "Marker") "Marker"

/-- A new object whose type has a parameter. -/
def newWrapper : Act ObjectRef := do
  return plainObject (← World.fresh) (.host "Wrapper") "Wrapper<i32>"

/-- A new sequence in which only the even positions have an element. -/
def newSparse (length : Nat) : Act ObjectRef := do
  let identity ← World.fresh
  setItem identity (.sparse length)
  return { plainObject identity (.host "Sparse") "Sparse" with elements := .hosted .int }

def newGrid : Act ObjectRef := do
  let identity ← World.fresh
  setItem identity .grid
  return { plainObject identity (.host "Grid") "game.Grid" with
    elements := .hosted .object
    ownsMembers := true }

def newList (element : Kind) (items : List Value) : Act ObjectRef := do
  return .ofList (← World.fresh) element items

/-! ## What objects answer -/

/-- The string form of an object: its type and, if it has coordinates, these. -/
def describe (o : ObjectRef) : Act String := do
  match ← item? o with
  | some (.vec2 x y) =>
    return "Vec2(" ++ stringFormLayout.text x ++ ", " ++ stringFormLayout.text y ++ ")"
  | _ => return o.typeName

def gridCells : List Value := [.null, .str "cell", .void]

def length (o : ObjectRef) : Act Nat := do
  match ← item? o with
  | some (.sparse length) => return length
  | some .grid => return gridCells.length
  | _ => return 0

def element? (o : ObjectRef) (i : Nat) : Act (Option Value) := do
  match ← item? o with
  | some (.sparse length) =>
    return if i < length ∧ i % 2 = 0 then some (.int (Int32.ofNat (i % 1000 * 10))) else none
  | some .grid => return gridCells[i]?
  | _ => return none

def selectMember (o : ObjectRef) (name : String) : Act (Option Value) := do
  match ← item? o, name with
  | some (.vec2 x _), "x" => return some (.float x)
  | some (.vec2 _ y), "y" => return some (.float y)
  | some (.counter hits), "hits" => return some (.int hits)
  | some .grid, "Count" => return some (.int 99)
  | some .grid, "width" => return some (.int 1)
  | some .grid, "nothing" => return some .void
  | _, _ => return none

/-- Writes a member: the hits of a counter can be assigned an integer. -/
def assignMember (o : ObjectRef) (name : String) (v : Value) : Act Bool := do
  match ← item? o, name, v with
  | some (.counter _), "hits", .int hits =>
    setItem o.identity (.counter hits)
    return true
  | _, _, _ => return false

def objects : Objects SampleHost where
  describe := describe
  length := length
  element? := element?
  select := selectMember
  assign := assignMember

/-! ## Selectors -/

def note (r : Request) : Act Unit :=
  modify fun w => { w with state.log := r :: w.state.log }

/-- The table that a selector looks in. -/
def Names.table (n : Names) (owner? : Option ObjectRef) : Table String Value :=
  if owner?.isSome then n.members else n.globals

/-- The names with another value for a name in the table that a selector looks in. -/
def Names.set (n : Names) (owner? : Option ObjectRef) (name : String) (v : Value) : Names :=
  if owner?.isSome then { n with members := n.members.insert name v }
  else { n with globals := n.globals.insert name v }

def selectName (number : Nat) (owner? : Option ObjectRef) (name : String) :
    Act (Option Value) := do
  note (.get number (owner?.map (·.typeName)) name)
  return ((← get).state.names.find? number).bind fun n => (n.table owner?).find? name

/-- Writes a name that is there. -/
def assignName (number : Nat) (owner? : Option ObjectRef) (name : String) (v : Value) :
    Act Bool := do
  note (.set number (owner?.map (·.typeName)) name v)
  match (← get).state.names.find? number with
  | none => return false
  | some n =>
    if (n.table owner?).contains name then
      modify fun w => { w with state.names := w.state.names.insert number (n.set owner? name v) }
      return true
    else return false

/-- Keeps names under a number and makes a selector for them. -/
def newSelector (number : Nat) (n : Names) : Act (Selector SampleHost) := do
  modify fun w => { w with state.names := w.state.names.insert number n }
  return if n.writable then ⟨selectName number, assignName number⟩
    else .readOnly (selectName number)

/-! ## Initializers -/

def setVec2Field (o : ObjectRef) (field : String) (v : Value) :
    ExceptT EvalError (StateM (World SampleHost)) ObjectRef := do
  if o.type ≠ vec2Type then
    throw (.fieldInit o.typeName field "instance has an unexpected type")
  let (x, y) := match ← item? o with
    | some (.vec2 x y) => (x, y)
    | _ => (0, 0)
  let coordinate ← match v with
    | .float v => pure v
    | .int v => pure (promote v)
    | _ => throw (.fieldInit "Vec2" field "expected a number")
  let (x, y) ← match field with
    | "x" => pure (coordinate, y)
    | "y" => pure (x, coordinate)
    | _ => throw (.fieldInit "Vec2" field "no such field")
  setItem o.identity (.vec2 x y)
  return o

def setCounterField (o : ObjectRef) (field : String) (v : Value) :
    ExceptT EvalError (StateM (World SampleHost)) ObjectRef := do
  match field, v with
  | "hits", .int hits =>
    setItem o.identity (.counter hits)
    return o
  | _, _ => throw .invalidFieldInit

/-- The initializers by name.  The broken one makes objects of one type and sets the fields of
another. -/
def initializer? : String → Option (Initializer SampleHost)
  | "vec2" => some ⟨newVec2 0 0, setVec2Field⟩
  | "counter" => some ⟨newCounter 0, setCounterField⟩
  | "broken" => some ⟨newMarker, setVec2Field⟩
  | _ => none

/-! ## Functions -/

/-- The native type of coordinates. -/
@[reducible] def vec2Handle : NativeType SampleHost :=
  .handle vec2Type "alloc::sync::Arc<cdl_driver::host::Vec2>"

/-- String forms with a separator between them. -/
def joinTexts (separator : String) (vs : List Value) : Act String := do
  return separator.intercalate (← vs.mapM objects.textOf)

/-! ## Native functions -/

def computing (name : String) (parameters : List (NativeType SampleHost))
    (result : ReturnType SampleHost) (f : Arguments parameters → result.Carrier) :
    NativeFunction SampleHost Notes :=
  ⟨name, parameters, result, .detached fun args => return f args, []⟩

/-- A function that acts on the sample host. -/
def acting (name : String) (parameters : List (NativeType SampleHost))
    (result : ReturnType SampleHost) (f : Arguments parameters → Act result.Carrier) :
    NativeFunction SampleHost Notes :=
  ⟨name, parameters, result, .detached f, []⟩

/-- A function that works on the context. -/
def contextual (name : String) (parameters : List (NativeType SampleHost))
    (result : ReturnType SampleHost)
    (f : Arguments parameters → StateM (Context SampleHost Notes) result.Carrier) :
    NativeFunction SampleHost Notes :=
  ⟨name, parameters, result, .contextual f, []⟩

def push (v : Value) : StateM (Context SampleHost Notes) (Except String ValueInfo) := do
  let (outcome, evaluator) := (← get).evaluator.perform (EvalM.pushValue v)
  modify fun c => { c with evaluator }
  return outcome.mapError EvalError.message

def native? : String → Option (NativeFunction SampleHost Notes)
  | "zero" => computing "zero" [] .int fun _ => 0
  | "nothing" => computing "nothing" [] .unit fun _ => ()
  | "twice" => computing "twice" [.int] .int fun (a, _) => 2 * a
  | "not" => computing "not" [.bool] .bool fun (a, _) => !a
  | "sub" => computing "sub" [.int, .int] .int fun (a, b, _) => a - b
  | "half" => computing "half" [.float] .float fun (a, _) => a / 2
  | "join" => computing "join" [.string, .string] .string fun (a, b, _) => a ++ b
  | "mixed" => computing "mixed" [.int, .float, .bool] .float fun (a, b, add, _) =>
    if add then promote a + b else promote a * b
  | "scale" => computing "scale" [.float, .float, .float] .float fun (x, factor, offset, _) =>
    x * factor + offset
  | "cat4" => acting "cat4" [.value, .value, .value, .value] .string fun (a, b, c, d, _) =>
    joinTexts "|" [a, b, c, d]
  | "cat5" => acting "cat5" [.string, .int, .float, .bool, .value] .string
    fun (a, b, c, d, e, _) => joinTexts "|" [.str a, .int b, .float c, .bool d, e]
  | "cat6" => acting "cat6" [.int, .int, .int, .int, .int, .int] .string
    fun (a, b, c, d, e, f, _) => joinTexts "," [.int a, .int b, .int c, .int d, .int e, .int f]
  | "ident" => computing "ident" [.value] .value fun (a, _) => a
  | "kind" => computing "kind" [.value] .string fun (a, _) => (Value.kind a).name
  | "object" => computing "object" [.object] .object fun (a, _) => a
  | "maybe" => computing "maybe" [.maybe] .maybe fun (a, _) => a
  | "unit" => computing "unit" [.unit] .bool fun _ => true
  | "vec2_sum" => acting "vec2_sum" [vec2Handle] .float fun (a, _) => do
    match ← item? a with
    | some (.vec2 x y) => return x + y
    | _ => return 0
  | "make_vec2" => acting "make_vec2" [.float, .float] .object fun (x, y, _) => newVec2 x y
  | "range" => acting "range" [.int] .object fun (n, _) => do
    let count := min (Int32.toInt n).toNat 1000
    newList .int ((List.range count).map fun i => Value.int (Int32.ofNat i))
  | "checked" => computing "checked" [.int] (.orFailure .int) fun (a, _) =>
    if Int32.toInt a < 0 then .error "negative input" else .ok a
  | "running" => contextual "running" [] .string fun _ => do
    return (← get).executing?.getD ""
  | "depth" => contextual "depth" [.int] .int fun (extra, _) => do
    return Int32.ofNat (← get).stack.length + extra
  | "push_two" => contextual "push_two" [.value, .value] (.orFailure .int) fun (a, b, _) => do
    match ← push a with
    | .error text => return .error text
    | .ok _ => return (← push b).map fun info => Int32.ofInt info.offset
  | _ => none

/-! ## Functions on argument expressions -/

/-- Evaluates expressions, leaves the values on the stack and tells where the last one is. -/
def evalEach : List Node → CallM SampleHost Notes ValueInfo
  | [] => return .void
  | [arg] => CallM.evaluate (eval arg)
  | arg :: args => do
    let _ ← CallM.evaluate (eval arg)
    evalEach args

/-- A function that returns what one kind of evaluation makes of its first argument. -/
def evaluating (name : String) (f : Node → EvalM SampleHost Value) : Function SampleHost Notes where
  name
  invoke
    | [] => return .void
    | arg :: _ => CallM.evaluate do
      EvalM.pushValue (← f arg)

/-- The functions on argument expressions by name. -/
def standard? : String → Option (Function SampleHost Notes)
  | "count_args" => some ⟨"count_args", fun args =>
    CallM.evaluate (EvalM.pushValue (.int (Int32.ofNat args.length)))⟩
  | "show_args" => some ⟨"show_args", fun args =>
    CallM.evaluate (EvalM.pushValue (.str ("; ".intercalate (Node.texts args))))⟩
  | "all" => some ⟨"all", evalEach⟩
  | "fail" => some ⟨"fail", fun args => do
    let _ ← evalEach args
    throw (.eval .missingObjectType)⟩
  | "eval_int" => evaluating "eval_int" fun arg => return .int (← evalInt arg)
  | "eval_float" => evaluating "eval_float" fun arg => return .float (← evalFloat arg)
  | "eval_bool" => evaluating "eval_bool" fun arg => return .bool (← evalBool arg)
  | "eval_str" => evaluating "eval_str" fun arg => return .str (← evalString arg)
  | "eval_string" => evaluating "eval_string" fun arg => return .str (← evalText arg)
  | "eval_object" => evaluating "eval_object" fun arg => return .object (← evalObject arg)
  | _ => none

/-- The function `id` of the sample host, under a name of its own and, if it is native, with
defaults for its last parameters. -/
def function? (id name : String) (defaults? : Option (List Value)) :
    Option (Function SampleHost Notes) :=
  match native? id with
  | some f =>
    let f := match defaults? with
      | some defaults => f.withDefaults defaults
      | none => f
    some { f with name }.toFunction
  | none => (standard? id).map fun f => { f with name }

/-! ## Modifiers -/

/-- A modifier that computes a new value from the old one. -/
def replacing (name : String) (f : Value → ExceptT EvalError Act Value) :
    Modifier SampleHost Notes where
  name
  apply info := CallM.evaluate do
    let v ← EvalM.popValue info
    EvalM.pushValue (← EvalM.onWorldExcept (f v))

def modifier? : String → Option (Modifier SampleHost Notes)
  | "neg" => some .negator
  | "inc" => replacing "inc" fun v => ExceptT.mk (pure (evaluateUnary .inc v))
  | "double" => replacing "double" fun v => evaluateBinary objects .mul v (.int 2)
  | "text" => replacing "text" fun v => return .str (← objects.textOf v)
  | "peek" => some ⟨"peek", fun info => CallM.evaluate do
    EvalM.pushValue (.str (← EvalM.getText info))⟩
  | "drop" => some ⟨"drop", fun info => do
    CallM.evaluate (EvalM.removeTop info)
    return .void⟩
  | _ => none

/-! ## Converters -/

/-- A converter with the types that it is registered for. -/
structure TypedConverter where
  source : TypeId
  target : TypeId
  convert : Converter SampleHost

def converter? : String → Option TypedConverter
  | "int>bool" => some ⟨.int, .bool, fun v => return .bool (v.asInt?.getD 0 ≠ 0)⟩
  | "int>string" => some ⟨.int, .string, fun v => return .str ("#" ++ v.text "")⟩
  | "int>int" => some ⟨.int, .int, fun _ => return .int (-1)⟩
  | "int>value" => some ⟨.int, (NativeType.value (σ := SampleHost)).id, fun _ => return .str "seen"⟩
  | "string>int" => some ⟨.string, .int, fun v =>
    let text := v.asString?.getD ""
    if text = "" then throw (.conversion "string" "int" "empty text")
    else return .int (Int32.ofNat text.utf8ByteSize)⟩
  | "string>bool" => some ⟨.string, .bool, fun _ => return .str "still text"⟩
  | "float>vec2" => some ⟨.float, vec2Handle.id, fun v => do
    let x := v.asFloat?.getD 0
    return .object (← newVec2 x x)⟩
  | "vec2>float" => some ⟨.object vec2Type, .float, fun v => do
    match v with
    | .object o => return (← selectMember o "x").getD v
    | v => return v⟩
  | "ints>int" => some ⟨.object (.list .int), .int, fun v => do
    match v with
    | .object o => return .int (Int32.ofNat (← objects.count o))
    | v => return v⟩
  | _ => none

end SampleHost

end Edict
