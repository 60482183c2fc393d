import Edict.Binary32
import Edict.Decimal

/-! # Values

Every value that an expression can have.  Objects are the values that a host hands to expressions:
the engine knows who an object is and what it can be asked for, and asks the host for everything
else.
-/

namespace Edict

/-- The integer `n` if it has 32 bits, its sign included. -/
def int32? (n : Int) : Option Int32 :=
  if -2147483648 ≤ n ∧ n ≤ 2147483647 then some (Int32.ofInt n) else none

/-! ## Kinds -/

/-- What kind of value an expression has. -/
inductive Kind where
  | void | int | float | bool | string | object
deriving DecidableEq, Repr, Inhabited

namespace Kind

/-- The name in messages and in front of typed lists. -/
def name : Kind → String
  | void => "void"
  | int => "int"
  | float => "float"
  | bool => "bool"
  | string => "string"
  | object => "object"

/-- A lower-case copy of an ASCII letter. -/
def lowerLetter (c : Char) : Char :=
  if 'A' ≤ c && c ≤ 'Z' then Char.ofNat (c.toNat + 32) else c

/-- The kind of the elements of a list that `tag` stands before.  Four names are known, in any mix
of small and capital letters; any other tag, and none, makes a list of anything. -/
def ofTag (tag : String) : Kind :=
  match String.ofList (tag.toList.map lowerLetter) with
  | "int" => int
  | "float" => float
  | "bool" => bool
  | "string" => string
  | _ => object

/-- Whether values of the kind are kept as bytes, and not in the object table. -/
def isScalar : Kind → Bool
  | int | float | bool => true
  | _ => false

end Kind

/-! ## Objects -/

/-- The type of an object, as converters and native parameters tell types apart. -/
inductive ObjectType where
  /-- A list with elements of one kind. -/
  | list (element : Kind)
  /-- A type of the host. -/
  | host (name : String)
deriving DecidableEq, Repr, Inhabited

/-- Where the elements of an object come from, if it can be indexed.  The kind is the one that all
elements have; `object` if they differ. -/
inductive Elements (α : Type) where
  /-- The object cannot be indexed. -/
  | none
  /-- A list, whose items never change. -/
  | items (kind : Kind) (items : List α)
  /-- A sequence of the host, which answers for its length and elements whenever it is asked. -/
  | hosted (kind : Kind)

/-- An object: who it is and what it can be asked for.  Its string form, its members and, unless it
is a list, its elements are answers of the host. -/
structure Object (α : Type) where
  /-- Tells the object from all others. -/
  identity : Nat
  type : ObjectType
  /-- The name of the type in messages. -/
  typeName : String
  elements : Elements α
  /-- Whether the object answers for its members itself. -/
  ownsMembers : Bool

namespace Object

variable {α : Type}

def isSame (a b : Object α) : Bool := a.identity = b.identity

def isIndexed (o : Object α) : Bool :=
  match o.elements with
  | .none => false
  | .items _ _ | .hosted _ => true

/-- The list of `items`, which have the kind `element`. -/
def ofList (identity : Nat) (element : Kind) (items : List α) : Object α where
  identity
  type := .list element
  typeName := "List<" ++ element.name ++ ">"
  elements := .items element items
  ownsMembers := false

end Object

/-! ## Values of every kind -/

/-- A value.  `null` is of kind `object` and refers to nothing. -/
inductive Value where
  | void
  | int (v : Int32)
  | float (v : Binary32)
  | bool (v : Bool)
  | str (v : String)
  | object (v : Object Value)
  | null
deriving Inhabited

namespace Value

def kind : Value → Kind
  | void => .void
  | int _ => .int
  | float _ => .float
  | bool _ => .bool
  | str _ => .string
  | object _ | null => .object

def asInt? : Value → Option Int32
  | int v => some v
  | _ => none

def asFloat? : Value → Option Binary32
  | float v => some v
  | _ => none

def asBool? : Value → Option Bool
  | bool v => some v
  | _ => none

def asString? : Value → Option String
  | str v => some v
  | _ => none

def asObject? : Value → Option (Object Value)
  | object v => some v
  | _ => none

/-- Whether the value refers to nothing. -/
def isNull : Value → Bool
  | null => true
  | _ => false

/-- Equality of values as data: floats as floats compare, objects by identity. -/
def isSame : Value → Value → Bool
  | void, void => true
  | int a, int b => a = b
  | float a, float b => a.isEqual b
  | bool a, bool b => a = b
  | str a, str b => a = b
  | object a, object b => a.isSame b
  | null, null => true
  | _, _ => false

end Value

/-- A reference to an object of a host, or to a list. -/
abbrev ObjectRef := Object Value

/-! ## String forms -/

/-- Two digits at least, for the size of an exponent. -/
def twoDigits (n : Nat) : String := if n < 10 then "0" ++ toString n else toString n

/-- The string form of a float: an exponent is due above seven digits before the point, or above as
many as the shortest digits are, and below `0.0001`.  It has a sign and two digits, and whole
numbers have no point. -/
def stringFormLayout : Decimal.Layout where
  infinity := "Infinity"
  positional digits integerDigits := -3 ≤ integerDigits && integerDigits ≤ (max digits 7 : Nat)
  exactWholes := false
  wholeTail := ""
  exponent e := "E" ++ (if e < 0 then "-" else "+") ++ twoDigits e.natAbs

def boolText (b : Bool) : String := if b then "true" else "false"

/-- The string form: nothing for `void`, and the contents of a string.  Objects are asked for theirs;
`objectText` is what one has answered. -/
def Value.text (objectText : String) : Value → String
  | .void => ""
  | .int v => toString v.toInt
  | .float v => stringFormLayout.text v
  | .bool v => boolText v
  | .str v => v
  | .object _ => objectText
  | .null => "null"

end Edict
