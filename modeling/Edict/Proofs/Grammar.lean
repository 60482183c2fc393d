import Edict.Parser.Expression

namespace Edict

/-! # The grammar of expressions

Which tokens make an expression, and which one, with the precedence of the operators written into
the rules.  Nothing here refers to how the parser goes about it.

`=` and `? :` are the loosest; between them stand operands with operators of the levels 1 to 9, each
of which groups to the left.  A sign or `!` may stand before any operand and takes as much behind it
as binds tighter than itself.  To say "as much as possible", a phrase knows the level of the
operator that follows it: the operand of a sign is not followed by a tighter one.
-/

/-! ## Terminals -/

/-- The operator that the token is between two operands, and its level. -/
def TokenKind.dyadic? : TokenKind → Option (Op × Nat)
  | .and => some (.and, 1)
  | .or => some (.or, 1)
  | .eq => some (.eq, 2)
  | .ne => some (.ne, 2)
  | .lt => some (.lt, 3)
  | .gt => some (.gt, 3)
  | .le => some (.le, 3)
  | .ge => some (.ge, 3)
  | .add => some (.add, 4)
  | .sub => some (.sub, 4)
  | .mul => some (.mul, 5)
  | .div => some (.div, 5)
  | .mod => some (.mod, 5)
  | .pow => some (.pow, 7)
  | .dot => some (.member, 9)
  | _ => none

/-- The operator that the token is before one operand, and its level. -/
def TokenKind.monadic? : TokenKind → Option (Op × Nat)
  | .not => some (.not, 1)
  | .add => some (.pos, 6)
  | .sub => some (.neg, 6)
  | _ => none

/-- The expression that a literal or an identifier is on its own.  Integers are read here whether
they fit 32 bits or not. -/
def Token.leaf? (t : Token) : Option Node :=
  match t.kind with
  | .int => (Parser.integer? t.text.toList).map fun z => .int (.ofInt z)
  | .float => (Parser.floatLiteral? t.text).map .float
  | .bool => some (.bool (t.text = "true"))
  | .str => some (.str t.text)
  | .identifier => some (if t.text = "null" then .null else .ident t.text)
  | _ => none

namespace Grammar

/-- What stands before a bracket: an identifier, or nothing. -/
inductive Tag : List Token → String → Prop
  | none : Tag [] ""
  | ident {i : Token} (hi : i.kind = .identifier) : Tag [i] i.text

/-! ## Phrases -/

mutual

/-- `expr := tern ('=' tern)*`, grouped to the left. -/
inductive Expr : List Token → Node → Prop
  | tern {ts : List Token} {n : Node} (h : Tern ts n) : Expr ts n
  | assign {ls rs : List Token} {t : Token} {left right : Node} (hleft : Expr ls left)
      (ht : t.kind = .assign) (hright : Tern rs right) :
      Expr (ls ++ t :: rs) (.apply .assign [left, right])

/-- `tern := bin ['?' expr ':' tern]`. -/
inductive Tern : List Token → Node → Prop
  | bin {ts : List Token} {n : Node} (h : Bin 1 0 ts n) : Tern ts n
  | choice {cs ys ns : List Token} {q c : Token} {condition yes no : Node}
      (hcondition : Bin 1 0 cs condition) (hq : q.kind = .question) (hyes : Expr ys yes)
      (hc : c.kind = .colon) (hno : Tern ns no) :
      Tern (cs ++ q :: (ys ++ c :: ns)) (.apply .ternary [condition, yes, no])

/-- `Bin level next`: operands with operators of `level` or tighter between them, where the operator
between operands that follows has the level `next`, or is none and `next` is 0. -/
inductive Bin : Nat → Nat → List Token → Node → Prop
  | operand {level next : Nat} {ts : List Token} {n : Node} (h : Operand next ts n) :
      Bin level next ts n
  | dyadic {level next l : Nat} {ls rs : List Token} {t : Token} {op : Op} {left right : Node}
      (hleft : Bin l l ls left) (ht : t.kind.dyadic? = some (op, l)) (hlevel : level ≤ l)
      (hright : Bin (l + 1) next rs right) :
      Bin level next (ls ++ t :: rs) (.apply op [left, right])

/-- An atom, or an operator before the longest phrase of tighter ones. -/
inductive Operand : Nat → List Token → Node → Prop
  | atom {next : Nat} {ts : List Token} {n : Node} (h : Atom ts n) : Operand next ts n
  | monadic {next l : Nat} {ts : List Token} {t : Token} {op : Op} {n : Node}
      (ht : t.kind.monadic? = some (op, l)) (hlongest : next ≤ l) (h : Bin (l + 1) next ts n) :
      Operand next (t :: ts) (.apply op [n])

/-- `atom := literal | identifier | '(' expr ')' | [identifier] '[' params ']'
| [identifier] '{' params '}'`. -/
inductive Atom : List Token → Node → Prop
  | leaf {t : Token} {n : Node} (ht : t.leaf? = some n) : Atom [t] n
  | paren {ts : List Token} {o c : Token} {n : Node} (ho : o.kind = .openParen) (h : Expr ts n)
      (hc : c.kind = .closeParen) : Atom (o :: (ts ++ [c])) n
  | list {tag ts : List Token} {text : String} {o c : Token} {items : List Node}
      (htag : Tag tag text) (ho : o.kind = .openBracket) (h : Params ts items)
      (hc : c.kind = .closeBracket) :
      Atom (tag ++ o :: (ts ++ [c])) (.list (Kind.ofTag text) items)
  | object {tag ts : List Token} {text : String} {o c : Token} {fields : List Node}
      (htag : Tag tag text) (ho : o.kind = .openBrace) (h : Params ts fields)
      (hc : c.kind = .closeBrace) :
      Atom (tag ++ o :: (ts ++ [c])) (.construct text fields)

/-- `params := [expr (',' expr)* [',']]`. -/
inductive Params : List Token → List Node → Prop
  | nil : Params [] []
  | last {ts : List Token} {n : Node} (h : Expr ts n) : Params ts [n]
  | cons {ts rest : List Token} {t : Token} {n : Node} {ns : List Node} (h : Expr ts n)
      (ht : t.kind = .comma) (hrest : Params rest ns) : Params (ts ++ t :: rest) (n :: ns)

end

/-- `expr [',']`. -/
inductive Single : List Token → Node → Prop
  | bare {ts : List Token} {n : Node} (h : Expr ts n) : Single ts n
  | comma {ts : List Token} {t : Token} {n : Node} (h : Expr ts n) (ht : t.kind = .comma) :
      Single (ts ++ [t]) n

end Grammar

end Edict
