import Edict.Operator
import Edict.Token.Basic

/-! # Errors of the parser

Each names what is wrong and, with two exceptions, the token that it was found at.  Reading ends at
the first one.
-/

namespace Edict

/-- Why tokens are not an instruction, a list of expressions or an expression. -/
inductive ParseError where
  | emptyInstruction
  | expectedFunctionName (found : TokenKind) (span : Span)
  | expectedModifierName (span : Span)
  | unexpectedToken (found : TokenKind) (span : Span)
  | unmatchedOpenParen (span : Span)
  | unmatchedCloseParen (span : Span)
  /-- A bracket or brace that is not closed by its own kind. -/
  | unclosedDelimiter (opening : TokenKind) (span : Span)
  /-- Fewer expressions before an operator's end than it takes. -/
  | missingOperand (op : Op) (span : Span)
  | emptyExpression (span : Span)
  /-- More than one expression where one was due. -/
  | danglingOperands (count : Nat) (span : Span)
  | missingTernaryElse (span : Span)
  | unexpectedColon (span : Span)
  /-- A literal whose text stands for no value of its kind. -/
  | invalidLiteral (kind : TokenKind) (text : String) (span : Span)
  | notSingleExpression (count : Nat)
deriving DecidableEq, Repr, Inhabited

namespace ParseError

/-- The place of the error, if it has one. -/
def span? : ParseError → Option Span
  | emptyInstruction | notSingleExpression _ => none
  | expectedFunctionName _ span | expectedModifierName span | unexpectedToken _ span
  | unmatchedOpenParen span | unmatchedCloseParen span | unclosedDelimiter _ span
  | missingOperand _ span | emptyExpression span | danglingOperands _ span
  | missingTernaryElse span | unexpectedColon span | invalidLiteral _ _ span => some span

def message : ParseError → String
  | emptyInstruction => "instruction is empty"
  | expectedFunctionName found span =>
    "expected a function name, found " ++ found.text ++ " at " ++ span.text
  | expectedModifierName span => "expected a modifier name at " ++ span.text
  | unexpectedToken found span => "unexpected " ++ found.text ++ " at " ++ span.text
  | unmatchedOpenParen span => "unmatched `(` at " ++ span.text
  | unmatchedCloseParen span => "unmatched `)` at " ++ span.text
  | unclosedDelimiter opening span => opening.text ++ " at " ++ span.text ++ " is never closed"
  | missingOperand op span =>
    "operator `" ++ op.symbol ++ "` at " ++ span.text ++ " is missing an operand"
  | emptyExpression span => "expected an expression at " ++ span.text
  | danglingOperands count span =>
    toString count ++ " operands left without an operator at " ++ span.text
  | missingTernaryElse span => "`?` at " ++ span.text ++ " has no matching `:`"
  | unexpectedColon span => "`:` at " ++ span.text ++ " has no matching `?`"
  | invalidLiteral kind text span =>
    "invalid " ++ kind.text ++ " `" ++ text ++ "` at " ++ span.text
  | notSingleExpression count => "expected a single expression, found " ++ toString count

end ParseError

end Edict
