import Edict.Node
import Edict.Parser.Error
import Edict.Operator

/-! # One place for an expression

A slot is where one expression is read: between commas, or inside brackets.  It keeps the finished
expressions and the operators that still wait for an operand, and applies a waiting operator as
soon as a looser one follows.
-/

namespace Edict.Parser

/-! ## Literals

The expressions that single tokens stand for.
-/

def digit? (c : Char) : Option Nat :=
  if '0' ≤ c ∧ c ≤ '9' then some (c.toNat - '0'.toNat) else none

/-- The number whose last digits are `cs`, where the digits before them make `value`. -/
def digits? (value : Nat) : List Char → Option Nat
  | [] => some value
  | c :: cs => (digit? c).bind fun d => digits? (10 * value + d) cs

/-- The number that the digits `cs` write. -/
def decimal? : List Char → Option Nat
  | [] => none
  | cs => digits? 0 cs

/-- Whether a minus sign stands in front, and what follows the sign if there is one. -/
def cutSign : List Char → Bool × List Char
  | '-' :: cs => (true, cs)
  | '+' :: cs => (false, cs)
  | cs => (false, cs)

/-- The integer that digits write, with a sign in front of them or not. -/
def integer? (cs : List Char) : Option Int :=
  let (negative, cs) := cutSign cs
  (decimal? cs).map fun n : Nat => if negative then -(n : Int) else n

def intLiteral? (text : String) : Option Int32 := (integer? text.toList).bind int32?

/-- The power of ten behind the digits of a float: none, or an `e` and an integer. -/
def exponent? : List Char → Option Int
  | [] => some 0
  | c :: cs => if c = 'e' ∨ c = 'E' then integer? cs else none

/-- The float nearest to a number: digits, among them a point or not, and a power of ten. -/
def number? (cs : List Char) : Option Binary32 := do
  let isDigit := fun c => (digit? c).isSome
  let whole := cs.takeWhile isDigit
  let rest := cs.dropWhile isDigit
  let (fraction, rest) := match rest with
    | '.' :: rest => (rest.takeWhile isDigit, rest.dropWhile isDigit)
    | rest => ([], rest)
  let n ← decimal? (whole ++ fraction)
  let exponent := (← exponent? rest) - fraction.length
  return .ofFloat (Float32.ofScientific n (exponent < 0) exponent.natAbs)

/-- The float that a text without a sign writes: a number, or one of the words for what is none, in
any mix of small and capital letters. -/
def magnitude? (cs : List Char) : Option Binary32 :=
  match String.ofList (cs.map Kind.lowerLetter) with
  | "inf" | "infinity" => some .infinity
  | "nan" => some (-.invalid)
  | _ => number? cs

/-- The float literal `text`: points at the end do not count, and there may be a sign. -/
def floatLiteral? (text : String) : Option Binary32 :=
  let (negative, cs) := cutSign (text.toList.reverse.dropWhile (· = '.')).reverse
  (magnitude? cs).map fun v => if negative then -v else v

/-- The expression that a literal or an identifier stands for. -/
def valueNode (t : Token) : Except ParseError Node :=
  match t.kind with
  | .int => match intLiteral? t.text with
    | some v => .ok (.int v)
    | none => .error (.invalidLiteral t.kind t.text t.span)
  | .float => match floatLiteral? t.text with
    | some v => .ok (.float v)
    | none => .error (.invalidLiteral t.kind t.text t.span)
  | .bool => .ok (.bool (t.text = "true"))
  | .str => .ok (.str t.text)
  | _ => .ok (if t.text = "null" then .null else .ident t.text)

/-! ## Slots -/

/-- What waits for more tokens. -/
inductive Pending where
  /-- A parenthesis that is not closed yet. -/
  | paren (span : Span)
  | operator (binding : Binding) (span : Span)
  /-- A `?` whose `:` has not been read. -/
  | question (span : Span)
  /-- A `?` whose `:` has been read. -/
  | otherwise (span : Span)
deriving DecidableEq, Repr, Inhabited

/-- How tightly a waiting operator binds; parentheses and open questions do not give way. -/
def Pending.binding? : Pending → Option Binding
  | operator binding _ => some binding
  | otherwise _ => some .ternary
  | paren _ | question _ => none

/-- Replaces the operands of `op`, the newest expressions, by its application to them. -/
def applyTop (op : Op) (span : Span) (nodes : List Node) : Except ParseError (List Node) :=
  if op.arity ≤ nodes.length then
    .ok (.apply op (nodes.take op.arity).reverse :: nodes.drop op.arity)
  else .error (.missingOperand op span)

/-- Applies what was waiting to the newest expressions. -/
def reduce (nodes : List Node) : Pending → Except ParseError (List Node)
  | .operator binding span => applyTop binding.op span nodes
  | .otherwise span => applyTop .ternary span nodes
  | .question span => .error (.missingTernaryElse span)
  | .paren span => .error (.unmatchedOpenParen span)

/-- Applies the waiting operators that `incoming` yields to. -/
def reduceYielding (incoming : Binding) :
    List Node → List Pending → Except ParseError (List Node × List Pending)
  | nodes, [] => .ok (nodes, [])
  | nodes, p :: ps => match p.binding? with
    | some top =>
      if incoming.yieldsTo top then do
        let nodes ← reduce nodes p
        reduceYielding incoming nodes ps
      else .ok (nodes, p :: ps)
    | none => .ok (nodes, p :: ps)

/-- Applies all that waits inside the innermost parenthesis, which the token at `close` closes. -/
def reduceToParen (close : Span) :
    List Node → List Pending → Except ParseError (List Node × List Pending)
  | _, [] => .error (.unmatchedCloseParen close)
  | nodes, .paren _ :: ps => .ok (nodes, ps)
  | nodes, p :: ps => do
    let nodes ← reduce nodes p
    reduceToParen close nodes ps

/-- Applies all that waits behind the innermost open question, which the `:` at `colon` answers. -/
def reduceToQuestion (colon : Span) :
    List Node → List Pending → Except ParseError (List Node × List Pending)
  | _, [] | _, .paren _ :: _ => .error (.unexpectedColon colon)
  | nodes, .question span :: ps => .ok (nodes, .otherwise span :: ps)
  | nodes, p :: ps => do
    let nodes ← reduce nodes p
    reduceToQuestion colon nodes ps

def reduceAll : List Node → List Pending → Except ParseError (List Node)
  | nodes, [] => .ok nodes
  | nodes, p :: ps => do
    let nodes ← reduce nodes p
    reduceAll nodes ps

/-- The state of reading one expression. -/
structure Slot where
  /-- The finished expressions, newest first. -/
  nodes : List Node
  /-- What waits, newest first. -/
  pending : List Pending
  /-- The token read last. -/
  last? : Option Token
deriving Inhabited

namespace Slot

/-- A slot in which nothing has been read. -/
def empty : Slot := ⟨[], [], none⟩

def isStarted (slot : Slot) : Bool := slot.last?.isSome

/-- Whether a `+` or `-` that comes next is a sign. -/
def expectsOperand (slot : Slot) : Bool :=
  match slot.last? with
  | none => true
  | some t => t.kind.startsOperand

/-- How `kind` reads as an operator that comes next. -/
def binding? (slot : Slot) (kind : TokenKind) : Option Binding :=
  (if slot.expectsOperand then kind.signBinding? else none) <|> kind.binding?

/-- Reads a token that is neither a comma nor a bracket of any kind but a parenthesis. -/
def read (slot : Slot) (t : Token) : Except ParseError Slot :=
  match t.kind with
  | .openParen => .ok ⟨slot.nodes, .paren t.span :: slot.pending, some t⟩
  | .closeParen => do
    let (nodes, pending) ← reduceToParen t.span slot.nodes slot.pending
    return ⟨nodes, pending, some t⟩
  | .question => do
    let (nodes, pending) ← reduceYielding .ternary slot.nodes slot.pending
    return ⟨nodes, .question t.span :: pending, some t⟩
  | .colon => do
    let (nodes, pending) ← reduceToQuestion t.span slot.nodes slot.pending
    return ⟨nodes, pending, some t⟩
  | kind =>
    if kind.isValue then do
      let node ← valueNode t
      return ⟨node :: slot.nodes, slot.pending, some t⟩
    else match slot.binding? kind with
      | none => .error (.unexpectedToken kind t.span)
      | some binding =>
        if binding.isSign then
          .ok ⟨slot.nodes, .operator binding t.span :: slot.pending, some t⟩
        else do
          let (nodes, pending) ← reduceYielding binding slot.nodes slot.pending
          return ⟨nodes, .operator binding t.span :: pending, some t⟩

/-- The one expression that was read; the token at `place` ends it. -/
def finish (slot : Slot) (place : Span) : Except ParseError Node := do
  match ← reduceAll slot.nodes slot.pending with
  | [] => .error (.emptyExpression place)
  | [node] => .ok node
  | nodes => .error (.danglingOperands nodes.length place)

end Slot

end Edict.Parser
