import Edict.Evaluation.Operators

/-! # Types of native functions

A native function takes values of types of its own, and a host may add types to the ready-made ones.
This module says how a value is read as one of them, and how it is converted to another type before
that.
-/

namespace Edict

/-- Tells the types of native functions and of objects from each other. -/
inductive TypeId where
  | int | float | bool | string
  /-- The type of the objects themselves. -/
  | object (type : ObjectType)
  /-- Handles to objects of one type. -/
  | handle (type : ObjectType)
  /-- Any other type. -/
  | named (name : String)
deriving DecidableEq, Repr, Inhabited

/-- A type that a native parameter, or the result of an instruction, can have. -/
structure NativeType (σ : Type) where
  id : TypeId
  /-- The values of the type. -/
  Carrier : Type
  /-- How messages name the type. -/
  label : String
  /-- The kind that the result of an instruction must have to be returned as the type; none if any
  kind will do. -/
  kind? : Option Kind
  /-- Reads a value as the type. -/
  read? : Value → StateM (World σ) (Option Carrier)

namespace NativeType

variable {σ : Type}

/-- A type whose values are read without asking the host for anything. -/
@[reducible] def reading {α : Type} (id : TypeId) (label : String) (kind? : Option Kind)
    (read? : Value → Option α) : NativeType σ :=
  ⟨id, α, label, kind?, fun v => pure (read? v)⟩

/-- A float as an integer: the nearest one, halfway the even one, if it has 32 bits. -/
def roundInt? (v : Binary32) : Option Int32 :=
  v.nearestInt?.bind int32?

/-- Integers; floats may be given for them. -/
@[reducible] def int : NativeType σ :=
  reading .int "i32" (some .int) fun
    | .int v => some v
    | .float v => roundInt? v
    | _ => none

/-- Floats; integers may be given for them. -/
@[reducible] def float : NativeType σ :=
  reading .float "f32" (some .float) fun
    | .float v => some v
    | .int v => some (promote v)
    | _ => none

@[reducible] def bool : NativeType σ := reading .bool "bool" (some .bool) Value.asBool?

/-- Strings; numbers and truth values may be given for them. -/
@[reducible] def string : NativeType σ :=
  reading .string "alloc::string::String" (some .string) fun
    | .str v => some v
    | .int v => some (toString v.toInt)
    | .float v => some (stringFormLayout.text v)
    | .bool v => some (boolText v)
    | _ => none

@[reducible] def value : NativeType σ :=
  reading (.named "cdl_ir::value::Value") "cdl_ir::value::Value" none some

@[reducible] def object : NativeType σ :=
  reading (.named "cdl_ir::host::ObjectRef") "cdl_ir::host::ObjectRef" (some .object)
    Value.asObject?

/-- Objects or nothing. -/
@[reducible] def maybe : NativeType σ :=
  reading (.named "core::option::Option<cdl_ir::host::ObjectRef>")
    "core::option::Option<cdl_ir::host::ObjectRef>" (some .object) fun
    | .object v => some (some v)
    | .null => some none
    | _ => none

@[reducible] def unit : NativeType σ :=
  reading (.named "()") "()" (some .void) fun
    | .void => some ()
    | _ => none

/-- Objects of one type; messages call it `label`. -/
@[reducible] def handle (type : ObjectType) (label : String) : NativeType σ :=
  reading (.handle type) label (some .object) fun
    | .object v => if v.type = type then some v else none
    | _ => none

end NativeType

/-- The type that a value is stored with; `void` and `null` have none. -/
def Value.typeId? : Value → Option TypeId
  | .void | .null => none
  | .int _ => some .int
  | .float _ => some .float
  | .bool _ => some .bool
  | .str _ => some .string
  | .object v => some (.object v.type)

/-! ## Converters

A host can have arguments of one type converted to another before a native function sees them.
-/

/-- Makes a value of another type of a value. -/
abbrev Converter (σ : Type) := Value → ExceptT EvalError (StateM (World σ)) Value

/-- Converters by the type that they take and the type that they make. -/
abbrev Converters (σ : Type) := Table (TypeId × TypeId) (Converter σ)

/-- Converts a value toward a type.  Values of that type, values without a type, and pairs of types
without a converter stay as they are. -/
def Converters.convert {σ : Type} (converters : Converters σ) (v : Value) (target : TypeId) :
    ExceptT EvalError (StateM (World σ)) Value :=
  match v.typeId? with
  | none => pure v
  | some source =>
    if source = target then pure v
    else match converters.find? (source, target) with
      | some convert => convert v
      | none => pure v

def Converters.dump {σ : Type} (converters : Converters σ) : String :=
  "ConverterRegistry \x7b len: " ++ toString converters.size ++ " \x7d"

end Edict
