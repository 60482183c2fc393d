import Edict.Operator
import Edict.Value

/-! # Errors of evaluation -/

namespace Edict

/-- The evaluation stack is exhausted, or used in a way that does not fit what is on it. -/
inductive CapacityError where
  /-- No room for so many bytes. -/
  | arenaOverflow (requested available capacity : Nat)
  | objectTableOverflow (capacity : Nat)
  /-- Fewer bytes on the stack than were to be popped. -/
  | underflow (requested available : Nat)
  | invalidOffset (offset : Int) (length : Nat)
  /-- The top slot does not hold the number of the newest object. -/
  | objectIndexMismatch (stored objects : Nat)
deriving DecidableEq, Repr, Inhabited

/-- Why an expression has no value. -/
inductive EvalError where
  | binaryTypeMismatch (op : Op) (left right : Kind)
  | unaryTypeMismatch (op : Op) (operand : Kind)
  | invalidArity (op : Op) (found : Nat)
  | ternaryCondition (found : Kind)
  | undefinedIdentifier (name : String)
  | unknownMember (owner name : String)
  | unassignableIdentifier (name : String)
  | invalidAssignmentTarget
  | invalidMemberOwner (found : Kind)
  | invalidMemberOperand
  | indexOutOfRange (index : Int32) (length : Nat)
  | unknownObjectType (typeName : String)
  | missingObjectType
  | invalidFieldInit
  | fieldInit (typeName field reason : String)
  | typeMismatch (expected found : Kind)
  | nullReference
  | integerOverflow (operation : String)
  | divisionByZero
  | moduloByZero
  | conversion (source target reason : String)
  | capacity (e : CapacityError)
deriving DecidableEq, Repr, Inhabited

def CapacityError.message : CapacityError → String
  | arenaOverflow requested available capacity =>
    s!"evaluation stack overflow: {requested} bytes requested, {available} of {capacity} free"
  | objectTableOverflow capacity => s!"object table overflow: all {capacity} slots in use"
  | underflow requested available =>
    s!"evaluation stack underflow: {requested} bytes requested, {available} on the stack"
  | invalidOffset offset length =>
    s!"offset {offset} is outside the live stack ({length} bytes)"
  | objectIndexMismatch stored objects =>
    s!"object slot {stored} is not the top of the object table ({objects} live objects)"

def EvalError.message : EvalError → String
  | binaryTypeMismatch op left right =>
    "operator `" ++ op.symbol ++ "` is not defined for " ++ left.name ++ " and " ++ right.name
  | unaryTypeMismatch op operand =>
    "operator `" ++ op.symbol ++ "` is not defined for " ++ operand.name
  | invalidArity op found =>
    "operator `" ++ op.symbol ++ "` takes " ++ toString op.arity ++ " operand(s), found "
      ++ toString found
  | ternaryCondition found => "ternary condition must be bool, found " ++ found.name
  | undefinedIdentifier name => "undefined identifier `" ++ name ++ "`"
  | unknownMember owner name => "`" ++ owner ++ "` has no member `" ++ name ++ "`"
  | unassignableIdentifier name => "identifier `" ++ name ++ "` cannot be assigned"
  | invalidAssignmentTarget => "left side of `=` must be an identifier or a member access"
  | invalidMemberOwner found =>
    "member access requires an object on the left, found " ++ found.name
  | invalidMemberOperand => "right side of `.` must be an identifier or an integer index"
  | indexOutOfRange index length =>
    "index " ++ toString index.toInt ++ " is out of range for a collection of "
      ++ toString length ++ " elements"
  | unknownObjectType typeName =>
    "no initializer registered for object type `" ++ typeName ++ "`"
  | missingObjectType => "object initializer is missing its type name"
  | invalidFieldInit => "object fields must be written as `name = expression`"
  | fieldInit typeName field reason =>
    "cannot set `" ++ typeName ++ "." ++ field ++ "`: " ++ reason
  | typeMismatch expected found => "expected " ++ expected.name ++ ", found " ++ found.name
  | nullReference => "null object reference"
  | integerOverflow operation => "integer overflow in " ++ operation
  | divisionByZero => "division by zero"
  | moduloByZero => "modulo by zero"
  | conversion source target reason =>
    "cannot convert " ++ source ++ " to " ++ target ++ ": " ++ reason
  | capacity e => e.message

end Edict
