import Edict.Token.Basic

/-! # Operators

The closed set of operations that an expression can apply to its operands.
-/

namespace Edict

/-- An operation of the expression language.  `inc` and `dec` have no spelling in instruction text;
a host may still build expressions with them. -/
inductive Op where
  | eq | ne | gt | lt | ge | le
  | add | sub | mul | div | mod | pow
  | neg | pos | not | inc | dec
  | and | or
  | member | assign | ternary
deriving DecidableEq, Repr, Inhabited

namespace Op

/-- How many operands the operation takes. -/
def arity : Op → Nat
  | neg | pos | not | inc | dec => 1
  | ternary => 3
  | _ => 2

def isUnary (op : Op) : Bool := op.arity = 1

/-- The spelling in printed expressions and messages. -/
def symbol : Op → String
  | eq => "=="
  | ne => "!="
  | gt => ">"
  | lt => "<"
  | ge => ">="
  | le => "<="
  | add | pos => "+"
  | sub | neg => "-"
  | mul => "*"
  | div => "/"
  | mod => "%"
  | pow => "^"
  | not => "!"
  | inc => "++"
  | dec => "--"
  | and => "&&"
  | or => "||"
  | member => "."
  | assign => "="
  | ternary => "?:"

def name : Op → String
  | eq => "Eq"
  | ne => "Ne"
  | gt => "Gt"
  | lt => "Lt"
  | ge => "Ge"
  | le => "Le"
  | add => "Add"
  | sub => "Sub"
  | mul => "Mult"
  | div => "Div"
  | mod => "Mod"
  | pow => "Pow"
  | neg => "Neg"
  | pos => "Pos"
  | not => "Not"
  | inc => "Inc"
  | dec => "Dec"
  | and => "And"
  | or => "Or"
  | member => "Member"
  | assign => "Assign"
  | ternary => "Ternary"

/-- Every operation, in order of declaration. -/
def all : List Op :=
  [eq, ne, gt, lt, ge, le, add, sub, mul, div, mod, pow, neg, pos, not, inc, dec, and, or, member,
    assign, ternary]

def ofName? (name : String) : Option Op := all.find? (·.name = name)

end Op

/-! ## How tightly operators bind

From loose to tight:

* 0: `=` and the ternary `? :`
* 1: `&&`, `||` and `!`
* 2: `==` and `!=`
* 3: `<`, `>`, `<=` and `>=`
* 4: `+` and `-` between two operands
* 5: `*`, `/` and `%`
* 6: `-` and `+` as signs
* 7: `^`
* 9: `.`

Every operator groups to the left, `^` too; the ternary alone groups to the right.  As `!` stands
with the logical operators it takes in a whole comparison: `!a > b` is `!(a > b)`.
-/

/-- An operator as the parser sees it: what it does and how tightly it binds. -/
structure Binding where
  op : Op
  level : Nat
  /-- Whether it leaves its left operand to an operator of the same level before it. -/
  groupsLeft : Bool
deriving DecidableEq, Repr, Inhabited

namespace Binding

def left (op : Op) (level : Nat) : Binding := ⟨op, level, true⟩

/-- The ternary, once its `:` has been read. -/
def ternary : Binding := ⟨.ternary, 0, false⟩

/-- Whether the operator stands before its operand. -/
def isSign (b : Binding) : Bool := b.op.isUnary

/-- Whether the operator `top`, read earlier, takes the operand between the two. -/
def yieldsTo (b top : Binding) : Bool :=
  b.level < top.level || (b.level = top.level && b.groupsLeft)

end Binding

namespace TokenKind

/-- The token as an operator between operands, or as the `!` before one. -/
def binding? : TokenKind → Option Binding
  | assign => some (.left .assign 0)
  | and => some (.left .and 1)
  | or => some (.left .or 1)
  | not => some (.left .not 1)
  | eq => some (.left .eq 2)
  | ne => some (.left .ne 2)
  | gt => some (.left .gt 3)
  | lt => some (.left .lt 3)
  | ge => some (.left .ge 3)
  | le => some (.left .le 3)
  | add => some (.left .add 4)
  | sub => some (.left .sub 4)
  | mul => some (.left .mul 5)
  | div => some (.left .div 5)
  | mod => some (.left .mod 5)
  | pow => some (.left .pow 7)
  | dot => some (.left .member 9)
  | _ => none

/-- The token as a sign before an operand. -/
def signBinding? : TokenKind → Option Binding
  | add => some (.left .pos 6)
  | sub => some (.left .neg 6)
  | _ => none

/-- Whether a `+` or `-` behind the token is a sign. -/
def startsOperand (kind : TokenKind) : Bool :=
  kind = openParen || kind = question || kind = colon || kind.binding?.isSome

/-- Whether the token ends a list of expressions without being part of it. -/
def closesList (kind : TokenKind) : Bool :=
  kind = closeBracket || kind = closeBrace || kind = arrow

end TokenKind

end Edict
