import Edict.Operator
import Edict.Value
import Edict.Text

/-! # Expression trees -/

namespace Edict

inductive Node where
  | int (v : Int32)
  | float (v : Binary32)
  | bool (v : Bool)
  | str (v : String)
  | null
  /-- An object as a literal; no instruction text has one. -/
  | object (v : ObjectRef)
  /-- A new object of a named type.  Each field should be the assignment of an expression to a
  name. -/
  | construct (typeName : String) (fields : List Node)
  /-- A list whose elements have a kind; `object` if they may have any. -/
  | list (element : Kind) (items : List Node)
  /-- A name that the host gives a meaning to. -/
  | ident (name : String)
  /-- An operation on its operands. -/
  | apply (op : Op) (operands : List Node)
deriving Inhabited

namespace Node

def isLiteral : Node → Bool
  | int _ | float _ | bool _ | str _ | null | object _ => true
  | _ => false

/-- The value of a literal. -/
def literal? : Node → Option Value
  | int v => some (.int v)
  | float v => some (.float v)
  | bool v => some (.bool v)
  | str v => some (.str v)
  | null => some .null
  | object v => some (.object v)
  | _ => none

/-- The literal of a value; `void` has none. -/
def ofValue? : Value → Option Node
  | .void => none
  | .int v => some (int v)
  | .float v => some (float v)
  | .bool v => some (bool v)
  | .str v => some (str v)
  | .object v => some (object v)
  | .null => some null

/-- The operands of an operation; none of anything else. -/
def operands : Node → List Node
  | apply _ operands => operands
  | _ => []

mutual

/-- How many expressions the tree is made of, itself included. -/
def size : Node → Nat
  | construct _ fields => 1 + sizes fields
  | list _ items => 1 + sizes items
  | apply _ operands => 1 + sizes operands
  | _ => 1

/-- How many expressions the trees are made of together. -/
def sizes : List Node → Nat
  | [] => 0
  | n :: ns => n.size + sizes ns

end

/-! ## A literal is the literal of its value -/

/-- The value of a literal has that literal. -/
theorem ofValue?_of_literal? {n : Node} {v : Value} (h : n.literal? = some v) :
    ofValue? v = some n := by
  cases n <;> simp [literal?] at h <;> subst h <;> rfl

/-- The literal of a value has that value. -/
theorem literal?_of_ofValue? {n : Node} {v : Value} (h : ofValue? v = some n) :
    n.literal? = some v := by
  cases v <;> simp [ofValue?] at h <;> subst h <;> rfl

/-- A literal is what has a value without being evaluated. -/
theorem isLiteral_iff (n : Node) : n.isLiteral = true ↔ ∃ v, n.literal? = some v := by
  cases n <;> simp [isLiteral, literal?]

end Node

/-! ## Printed expressions

`Node.text` writes an expression as source text with every operation in parentheses, so that it
reads the same whatever the operators bind to.  `Node.dump` shows the tree itself.
-/

/-- Floats in source text: never an exponent, and a point in every finite one. -/
def sourceLayout : Decimal.Layout where
  infinity := "inf"
  positional _ _ := true
  exactWholes := true
  wholeTail := ".0"
  exponent _ := ""

/-- Floats in dumps: an exponent from `10^16` on and below `0.0001`. -/
def dumpLayout : Decimal.Layout where
  infinity := "inf"
  positional _ integerDigits := -3 ≤ integerDigits && integerDigits ≤ 16
  exactWholes := false
  wholeTail := ".0"
  exponent e := "e" ++ toString e

namespace Node

def commaList (items : List String) : String := ", ".intercalate items

/-- An operation on operands that are written already.  Operand counts that no operation has show
the count alone. -/
def applyText (op : Op) : List String → String
  | [a] => "(" ++ op.symbol ++ a ++ ")"
  | [a, b] =>
    if op = .member then a ++ "." ++ b else "(" ++ a ++ " " ++ op.symbol ++ " " ++ b ++ ")"
  | [c, a, b] => "(" ++ c ++ " ? " ++ a ++ " : " ++ b ++ ")"
  | operands => "<" ++ op.symbol ++ "/" ++ toString operands.length ++ ">"

mutual

/-- The expression as source text, fully parenthesised. -/
def text : Node → String
  | int v => toString v.toInt
  | float v => sourceLayout.text v
  | bool v => boolText v
  | str v => Text.quoted v
  | null => "null"
  | object v => "<" ++ v.typeName ++ ">"
  | construct typeName fields => typeName ++ "\x7b" ++ commaList (texts fields) ++ "\x7d"
  | list element items =>
    (if element = .object then "" else element.name) ++ "[" ++ commaList (texts items) ++ "]"
  | ident name => name
  | apply op operands => applyText op (texts operands)

def texts : List Node → List String
  | [] => []
  | n :: ns => n.text :: texts ns

end

end Node

/-! ## Structural dumps -/

def Kind.dump : Kind → String
  | .void => "Void"
  | .int => "Int"
  | .float => "Float"
  | .bool => "Bool"
  | .string => "String"
  | .object => "Object"

def dumpList (items : List String) : String := "[" ++ Node.commaList items ++ "]"

/-- A named group of fields in a dump; an open one has fields that are not shown. -/
def dumpRecord (name : String) (fields : List (String × String)) (isOpen : Bool) : String :=
  let shown := fields.map fun (field, value) => field ++ ": " ++ value
  name ++ " \x7b " ++ Node.commaList (if isOpen then shown ++ [".."] else shown) ++ " \x7d"

def Value.dump : Value → String
  | .void => "Void"
  | .int v => "Int(" ++ toString v.toInt ++ ")"
  | .float v => "Float(" ++ dumpLayout.text v ++ ")"
  | .bool v => "Bool(" ++ boolText v ++ ")"
  | .str v => "Str(" ++ Text.quoted v ++ ")"
  | .object v => "Object(" ++ v.typeName ++ ")"
  | .null => "Null"

namespace Node

mutual

def dump : Node → String
  | int v => (Value.int v).dump
  | float v => (Value.float v).dump
  | bool v => (Value.bool v).dump
  | str v => (Value.str v).dump
  | null => Value.null.dump
  | object v => (Value.object v).dump
  | construct typeName fields =>
    dumpRecord "ObjectInit"
      [("type_name", Text.quoted typeName), ("fields", dumpList (dumps fields))] false
  | list element items =>
    dumpRecord "List" [("element", element.dump), ("elements", dumpList (dumps items))] false
  | ident name => "Variable(" ++ Text.quoted name ++ ")"
  | apply op operands =>
    dumpRecord "Expression" [("op", op.name), ("operands", dumpList (dumps operands))] false

def dumps : List Node → List String
  | [] => []
  | n :: ns => n.dump :: dumps ns

end

end Node

end Edict
