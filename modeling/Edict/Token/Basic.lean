import Edict.Text

/-! # Tokens

A token is a kind, the span it was read from and, for the kinds that stand for more than one
spelling, its text.
-/

namespace Edict

inductive TokenKind where
  | int | float | bool | str | identifier
  | add | sub | mul | div | mod | pow
  | eq | ne | gt | lt | ge | le
  | and | or | not | pipe | amp
  | assign | dot | comma | colon | question | arrow
  | openParen | closeParen | openBracket | closeBracket | openBrace | closeBrace
deriving DecidableEq, Repr, Inhabited

namespace TokenKind

/-- The one spelling of a punctuation kind; literals and identifiers have none. -/
def symbol? : TokenKind → Option String
  | int | float | bool | str | identifier => none
  | add => "+"
  | sub => "-"
  | mul => "*"
  | div => "/"
  | mod => "%"
  | pow => "^"
  | eq => "=="
  | ne => "!="
  | gt => ">"
  | lt => "<"
  | ge => ">="
  | le => "<="
  | and => "&&"
  | or => "||"
  | not => "!"
  | pipe => "|"
  | amp => "&"
  | assign => "="
  | dot => "."
  | comma => ","
  | colon => ":"
  | question => "?"
  | arrow => "->"
  | openParen => "("
  | closeParen => ")"
  | openBracket => "["
  | closeBracket => "]"
  | openBrace => "\x7b"
  | closeBrace => "\x7d"

/-- Whether the kind is a literal or an identifier: a token that stands for a value. -/
def isValue (kind : TokenKind) : Bool := kind.symbol?.isNone

def text (kind : TokenKind) : String :=
  match kind.symbol? with
  | some symbol => "`" ++ symbol ++ "`"
  | none => match kind with
    | int => "integer literal"
    | float => "float literal"
    | bool => "bool literal"
    | str => "string literal"
    | _ => "identifier"

end TokenKind

structure Token where
  kind : TokenKind
  /-- The identifier, the digits, `true` or `false`, or the contents of the string; nothing for
  punctuation. -/
  text? : Option String
  span : Span
deriving DecidableEq, Repr, Inhabited

namespace Token

def text (t : Token) : String := t.text?.getD ""

/-- The token as it could stand in an instruction. -/
def display (t : Token) : String :=
  match t.text? with
  | some text => if t.kind = .str then Text.quoted text else text
  | none => t.kind.symbol?.getD ""

end Token

end Edict
