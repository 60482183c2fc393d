import Edict.Outcome
import Edict.Token.Basic
import Edict.Text

/-! # Reading tokens

Instruction text is cut into tokens from left to right.  At each place the longest token that can
start there is taken; separators between tokens are dropped.  The first place where no token can
start ends the reading with an error, and the tokens before it are kept.
-/

namespace Edict

/-- Why no token can be read. -/
inductive LexErrorKind where
  /-- A string whose closing quote is missing. -/
  | unterminatedString (quote : Char)
  /-- A string whose closing quote is missing and whose last character is an escaping backslash. -/
  | trailingEscape
  /-- A number with more than one point. -/
  | malformedNumber (text : String)
  /-- A character that starts no token. -/
  | unrecognizedCharacter (found : Char)
deriving DecidableEq, Repr, Inhabited

/-- A place where no token can be read, and why. -/
structure LexError where
  span : Span
  kind : LexErrorKind
deriving DecidableEq, Repr, Inhabited

def LexErrorKind.message : LexErrorKind → String
  | .unterminatedString quote =>
    "unterminated string literal (missing closing " ++ Text.quotedChar quote ++ ")"
  | .trailingEscape => "escape character `\\` at end of input"
  | .malformedNumber text => "malformed number `" ++ text ++ "`"
  | .unrecognizedCharacter found => "unrecognized character " ++ Text.quotedChar found

def LexError.message (e : LexError) : String := e.kind.message ++ " at " ++ e.span.text

namespace Lexer

def isDigit (c : Char) : Bool := '0' ≤ c && c ≤ '9'

/-- A digit or point: what the text of a number goes on with. -/
def isNumeric (c : Char) : Bool := isDigit c || c = '.'

/-- What an identifier starts with. -/
def isWordStart (c : Char) : Bool := ('a' ≤ c && c ≤ 'z') || ('A' ≤ c && c ≤ 'Z') || c = '_'

/-- What an identifier goes on with. -/
def isWordPart (c : Char) : Bool := isWordStart c || isDigit c

def isQuote (c : Char) : Bool := c = '"' || c = '\''

/-- The operators of two characters. -/
def pairKind? : Char → Char → Option TokenKind
  | '=', '=' => some .eq
  | '!', '=' => some .ne
  | '>', '=' => some .ge
  | '<', '=' => some .le
  | '&', '&' => some .and
  | '|', '|' => some .or
  | '-', '>' => some .arrow
  | _, _ => none

/-- The operators and brackets of one character. -/
def singleKind? : Char → Option TokenKind
  | '+' => some .add
  | '-' => some .sub
  | '*' => some .mul
  | '/' => some .div
  | '%' => some .mod
  | '^' => some .pow
  | '|' => some .pipe
  | '&' => some .amp
  | '>' => some .gt
  | '<' => some .lt
  | '=' => some .assign
  | '!' => some .not
  | '.' => some .dot
  | ',' => some .comma
  | ':' => some .colon
  | '?' => some .question
  | '(' => some .openParen
  | ')' => some .closeParen
  | '[' => some .openBracket
  | ']' => some .closeBracket
  | '{' => some .openBrace
  | '}' => some .closeBrace
  | _ => none

/-- The characters of one token and what they mean, or the characters at fault and why. -/
structure Lexeme where
  kind : TokenKind
  text? : Option String
  chars : List Char
  rest : List Char

/-- Splits a text behind an opening `quote` into the characters up to the closing one, that one
included, and the rest.  A backslash keeps the character after it from closing the string. -/
def stringBody (quote : Char) : List Char → Except LexErrorKind (List Char × List Char)
  | [] => .error (.unterminatedString quote)
  | ['\\'] => .error .trailingEscape
  | '\\' :: c :: cs => do
    let (body, rest) ← stringBody quote cs
    return ('\\' :: c :: body, rest)
  | c :: cs =>
    if c = quote then .ok ([c], cs)
    else do
      let (body, rest) ← stringBody quote cs
      return (c :: body, rest)

/-- The text without the backslashes that escape the character after them. -/
def unescape : List Char → List Char
  | '\\' :: c :: cs => c :: unescape cs
  | ['\\'] => []
  | c :: cs => c :: unescape cs
  | [] => []

/-- The token at the start of `c :: cs`, where `c` is a digit: digits, with a point it is a float,
with a second point it is no number. -/
def readNumber (c : Char) (cs : List Char) : Except (LexErrorKind × List Char) Lexeme :=
  let run := c :: cs.takeWhile isNumeric
  let text := String.ofList run
  let rest := cs.dropWhile isNumeric
  match run.count '.' with
  | 0 => .ok ⟨.int, some text, run, rest⟩
  | 1 => .ok ⟨.float, some text, run, rest⟩
  | _ => .error (.malformedNumber text, run)

/-- The token at the start of `c :: cs`, where `c` starts a word. -/
def readWord (c : Char) (cs : List Char) : Lexeme :=
  let run := c :: cs.takeWhile isWordPart
  let text := String.ofList run
  ⟨if text = "true" || text = "false" then .bool else .identifier, some text, run,
    cs.dropWhile isWordPart⟩

/-- The token at the start of `quote :: cs`. -/
def readString (quote : Char) (cs : List Char) : Except (LexErrorKind × List Char) Lexeme :=
  match stringBody quote cs with
  | .ok (body, rest) =>
    .ok ⟨.str, some (String.ofList (unescape body.dropLast)), quote :: body, rest⟩
  | .error kind => .error (kind, quote :: cs)

/-- The token at the start of `c :: cs`, where `c` is punctuation if it is anything. -/
def readSymbol (c : Char) (cs : List Char) : Except (LexErrorKind × List Char) Lexeme :=
  match cs.head?.bind fun d => (pairKind? c d).map (·, d) with
  | some (kind, d) => .ok ⟨kind, none, [c, d], cs.tail⟩
  | none => match singleKind? c with
    | some kind => .ok ⟨kind, none, [c], cs⟩
    | none => .error (.unrecognizedCharacter c, [c])

/-- The longest token at the start of `c :: cs`. -/
def readLexeme (c : Char) (cs : List Char) : Except (LexErrorKind × List Char) Lexeme :=
  if isDigit c then readNumber c cs
  else if isWordStart c then .ok (readWord c cs)
  else if isQuote c then readString c cs
  else readSymbol c cs

/-! ## Nothing is lost: the characters of a token and the rest are the text -/

/-- What is read of a string, and what is left, make up the text. -/
theorem stringBody_append {quote : Char} {cs body rest : List Char}
    (h : stringBody quote cs = .ok (body, rest)) : body ++ rest = cs := by
  fun_induction stringBody quote cs generalizing body rest with
  | case1 => simp at h
  | case2 => simp at h
  | case3 c cs ih =>
    obtain ⟨_, hs, h⟩ := bind_eq_ok_iff.1 h
    cases h
    simp [ih hs]
  | case4 cs =>
    simp only [Except.ok.injEq, Prod.mk.injEq] at h
    obtain ⟨rfl, rfl⟩ := h
    rfl
  | case5 c cs _ _ _ ih =>
    obtain ⟨_, hs, h⟩ := bind_eq_ok_iff.1 h
    cases h
    simp [ih hs]

/-- Each reader takes something off the front of the text, and nothing else. -/
theorem readNumber_append {c : Char} {cs : List Char} {lexeme : Lexeme}
    (h : readNumber c cs = .ok lexeme) :
    lexeme.chars ++ lexeme.rest = c :: cs ∧ lexeme.chars ≠ [] := by
  dsimp only [readNumber] at h
  split at h
  · cases h
    simp [List.takeWhile_append_dropWhile]
  · cases h
    simp [List.takeWhile_append_dropWhile]
  · cases h

theorem readWord_append (c : Char) (cs : List Char) :
    (readWord c cs).chars ++ (readWord c cs).rest = c :: cs ∧ (readWord c cs).chars ≠ [] := by
  simp [readWord, List.takeWhile_append_dropWhile]

theorem readString_append {quote : Char} {cs : List Char} {lexeme : Lexeme}
    (h : readString quote cs = .ok lexeme) :
    lexeme.chars ++ lexeme.rest = quote :: cs ∧ lexeme.chars ≠ [] := by
  unfold readString at h
  split at h
  · next body rest hs =>
    cases h
    simp [stringBody_append hs]
  · cases h

theorem readSymbol_append {c : Char} {cs : List Char} {lexeme : Lexeme}
    (h : readSymbol c cs = .ok lexeme) :
    lexeme.chars ++ lexeme.rest = c :: cs ∧ lexeme.chars ≠ [] := by
  unfold readSymbol at h
  split at h
  · next kind d hd =>
    cases h
    cases cs with
    | nil => simp at hd
    | cons e es =>
      simp only [List.head?_cons, Option.bind_some, Option.map_eq_some_iff,
        Prod.mk.injEq] at hd
      obtain ⟨_, _, _, rfl⟩ := hd
      simp
  · split at h
    · cases h
      simp
    · cases h

theorem readLexeme_append {c : Char} {cs : List Char} {lexeme : Lexeme}
    (h : readLexeme c cs = .ok lexeme) :
    lexeme.chars ++ lexeme.rest = c :: cs ∧ lexeme.chars ≠ [] := by
  unfold readLexeme at h
  split at h
  · exact readNumber_append h
  · split at h
    · cases h
      exact readWord_append c cs
    · split at h
      · exact readString_append h
      · exact readSymbol_append h

/-- Less text is left than there was. -/
theorem readLexeme_rest_length_le {c : Char} {cs : List Char} {lexeme : Lexeme}
    (h : readLexeme c cs = .ok lexeme) : lexeme.rest.length ≤ cs.length := by
  obtain ⟨happend, hchars⟩ := readLexeme_append h
  have hlength := congrArg List.length happend
  have hpos := List.length_pos_iff.mpr hchars
  simp only [List.length_append, List.length_cons] at hlength
  omega

/-! ## The whole text -/

def byteLength : List Char → Nat
  | [] => 0
  | c :: cs => c.utf8Size + byteLength cs

/-- The tokens of `cs`, which starts at byte `start`, and the error that ended the reading if it
did not reach the end. -/
def scan (start : Nat) : List Char → List Token × Option LexError
  | [] => ([], none)
  | c :: cs =>
    if Text.isSeparator c then scan (start + c.utf8Size) cs
    else match _hread : readLexeme c cs with
      | .error (kind, chars) =>
        ([], some ⟨Span.ofRange start (start + byteLength chars), kind⟩)
      | .ok lexeme =>
        let stop := start + byteLength lexeme.chars
        let (tokens, failure?) := scan stop lexeme.rest
        (⟨lexeme.kind, lexeme.text?, Span.ofRange start stop⟩ :: tokens, failure?)
termination_by cs => cs.length
decreasing_by
  · exact Nat.lt_succ_self _
  · exact Nat.lt_succ_of_le (readLexeme_rest_length_le _hread)

end Lexer

/-- The tokens of `text` up to the first place where none can be read. -/
def keptTokens (text : String) : List Token := (Lexer.scan 0 text.toList).1

def tokenize (text : String) : Except LexError (List Token) :=
  match Lexer.scan 0 text.toList with
  | (tokens, none) => .ok tokens
  | (_, some e) => .error e

end Edict
