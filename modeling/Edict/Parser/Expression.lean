import Edict.Outcome
import Edict.Parser.Slot

/-! # Reading expressions and instructions

Tokens are read one after the other.  A bracket or brace opens a new slot and keeps the one around
it in a frame, so that reading needs no recursion on the nesting; an identifier right before it is
the tag of the list or the type of the object.  Outside all brackets a comma, a closing token or
the end of the tokens ends the expression.

Main statements: `scan` stops in front of a comma or a closing token, or at the end
(`endsExpression_of_scan`), and reading an expression uses up at least one token
(`parseExpression_length_lt`), which is why reading a list of them ends.
-/

namespace Edict

namespace Parser

/-- A bracket that is open, and what had been read around it. -/
structure Frame where
  opening : Token
  /-- The identifier before the bracket, or nothing. -/
  tag : String
  /-- The finished expressions inside, newest first. -/
  items : List Node
  /-- The slot around the bracket. -/
  outer : Slot
deriving Inhabited

namespace Frame

/-- Opens the bracket `t` in `slot`.  An identifier right before it is a tag and no expression. -/
def ofToken (slot : Slot) (t : Token) : Frame :=
  match slot.last? with
  | some before =>
    if before.kind = .identifier then ⟨t, before.text, [], { slot with nodes := slot.nodes.drop 1 }⟩
    else ⟨t, "", [], slot⟩
  | none => ⟨t, "", [], slot⟩

/-- The token that closes the bracket. -/
def closer (f : Frame) : TokenKind :=
  if f.opening.kind = .openBracket then .closeBracket else .closeBrace

/-- The list or the object that the bracket makes of `items`, newest first. -/
def node (f : Frame) (items : List Node) : Node :=
  if f.opening.kind = .openBracket then .list (Kind.ofTag f.tag) items.reverse
  else .construct f.tag items.reverse

/-- The expressions inside, with the one in `slot` if it has been started. -/
def close (f : Frame) (slot : Slot) (place : Span) : Except ParseError (List Node) :=
  if slot.isStarted then do
    let node ← slot.finish place
    return node :: f.items
  else .ok f.items

/-- The bracket is not closed by its own kind. -/
def unclosed (f : Frame) : ParseError := .unclosedDelimiter f.opening.kind f.opening.span

/-- The slot around the bracket, with the list or object that `t` completes. -/
def resume (f : Frame) (items : List Node) (t : Token) : Slot :=
  ⟨f.node items :: f.outer.nodes, f.outer.pending, some t⟩

end Frame

/-- Whether the token opens a list or an object. -/
def opensFrame (kind : TokenKind) : Bool := kind = .openBracket || kind = .openBrace

/-- What closes does not open. -/
theorem opensFrame_of_closesList {kind : TokenKind} (h : kind.closesList = true) :
    opensFrame kind = false := by
  revert h
  cases kind <;> intro h <;> first | rfl | cases h

theorem ne_comma_of_closesList {kind : TokenKind} (h : kind.closesList = true) :
    kind ≠ .comma := by
  rintro rfl
  cases h

/-- Reads one expression up to the token that ends it, and stops in front of that token.  The last
argument are the tokens to come; `stop` is the place behind them. -/
def scan (stop : Span) : Slot → List Frame → List Token → Except ParseError (Slot × List Token)
  | slot, [], [] => .ok (slot, [])
  | slot, f :: _, [] => do
    let _ ← f.close slot stop
    .error f.unclosed
  | slot, frames, t :: ts =>
    if opensFrame t.kind then scan stop .empty (Frame.ofToken slot t :: frames) ts
    else if t.kind = .comma then
      match frames with
      | [] => .ok (slot, t :: ts)
      | f :: fs => do
        let node ← slot.finish t.span
        scan stop .empty ({ f with items := node :: f.items } :: fs) ts
    else if t.kind.closesList then
      match frames with
      | [] => .ok (slot, t :: ts)
      | f :: fs => do
        let items ← f.close slot t.span
        if t.kind = f.closer then scan stop (f.resume items t) fs ts else .error f.unclosed
    else do
      let slot ← slot.read t
      scan stop slot frames ts

/-- The empty span behind the last token. -/
def endSpan (tokens : List Token) : Span :=
  match tokens.getLast? with
  | some t => .point t.span.stop
  | none => .origin

/-- Reads one expression and the comma behind it, if there is one.  There is none to read at the end
of the tokens and in front of a closing token.  Beside the outcome stand the tokens to go on with;
if it is an error found before the end of the expression, they are those that came in. -/
def parseExpression (tokens : List Token) : Except ParseError (Option Node) × List Token :=
  match tokens with
  | [] => (.ok none, [])
  | t :: ts =>
    if t.kind.closesList then (.ok none, t :: ts)
    else match scan (endSpan (t :: ts)) .empty [] (t :: ts) with
      | .error e => (.error e, t :: ts)
      | .ok (slot, []) => ((slot.finish (endSpan (t :: ts))).map some, [])
      | .ok (slot, c :: cs) =>
        ((slot.finish c.span).map some, if c.kind = .comma then cs else c :: cs)

/-! ## Where reading stops -/

/-- Whether an expression outside brackets can end in front of `tokens`. -/
def endsExpression : List Token → Prop
  | [] => True
  | t :: _ => t.kind = .comma ∨ t.kind.closesList = true

/-- Reading stops in front of a comma or a token that closes, or at the end. -/
theorem endsExpression_of_scan {stop : Span} {slot : Slot} {frames : List Frame}
    {tokens : List Token} {slot' : Slot} {rest : List Token}
    (h : scan stop slot frames tokens = .ok (slot', rest)) : endsExpression rest := by
  -- The induction follows the tokens: reading goes on in all cases but those of the statement.
  fun_induction scan stop slot frames tokens generalizing slot' rest with
  | case1 slot =>
    cases h
    trivial
  | case2 slot f fs =>
    obtain ⟨_, _, h⟩ := bind_eq_ok_iff.1 h
    cases h
  | case3 slot frames t ts hopen ih => exact ih h
  | case4 slot t ts hopen hcomma =>
    cases h
    exact .inl hcomma
  | case5 slot t ts hopen hcomma f fs ih =>
    obtain ⟨node, _, h⟩ := bind_eq_ok_iff.1 h
    exact ih node h
  | case6 slot t ts hopen hcomma hclose =>
    cases h
    exact .inr hclose
  | case7 slot t ts hopen hcomma hclose f fs ih =>
    obtain ⟨items, _, h⟩ := bind_eq_ok_iff.1 h
    split at h
    · exact ih items h
    · cases h
  | case8 slot frames t ts hopen hcomma hclose ih =>
    obtain ⟨next, _, h⟩ := bind_eq_ok_iff.1 h
    exact ih next h

/-! ## The outcome of reading an expression -/

/-- Where an expression is read, it is what the slot holds where reading stops; a comma there is
used up. -/
theorem exists_scan_of_parseExpression {tokens rest : List Token} {node : Node}
    (h : parseExpression tokens = (.ok (some node), rest)) :
    ∃ slot unread place, scan (endSpan tokens) .empty [] tokens = .ok (slot, unread) ∧
      slot.finish place = .ok node ∧
      (unread = rest ∨ ∃ c, c.kind = .comma ∧ unread = c :: rest) := by
  cases tokens with
  | nil => cases h
  | cons t ts =>
    simp only [parseExpression] at h
    split at h
    · cases h
    · split at h
      · cases h
      · next slot hscan =>
        rcases Prod.mk.inj h with ⟨hfinish, hrest⟩
        exact ⟨slot, [], _, hscan, map_some_eq_ok_some.mp hfinish, .inl hrest⟩
      · next slot c cs hscan =>
        rcases Prod.mk.inj h with ⟨hfinish, hrest⟩
        refine ⟨slot, c :: cs, _, hscan, map_some_eq_ok_some.mp hfinish, ?_⟩
        by_cases hcomma : c.kind = .comma
        · rw [if_pos hcomma] at hrest
          exact .inr ⟨c, hcomma, by rw [hrest]⟩
        · rw [if_neg hcomma] at hrest
          exact .inl hrest

/-- Where no expression is read, no token is used up. -/
theorem eq_of_parseExpression_none {tokens rest : List Token}
    (h : parseExpression tokens = (.ok none, rest)) :
    rest = tokens ∧ ∀ t ∈ tokens.head?, t.kind.closesList = true := by
  cases tokens with
  | nil =>
    cases h
    exact ⟨rfl, by simp⟩
  | cons t ts =>
    simp only [parseExpression] at h
    split at h
    · next hclose =>
      cases h
      exact ⟨rfl, by simpa using hclose⟩
    · split at h
      · cases h
      · exact absurd (Prod.mk.inj h).1 map_some_ne_ok_none
      · exact absurd (Prod.mk.inj h).1 map_some_ne_ok_none

/-! ## Reading uses up tokens -/

/-- Reading adds no tokens. -/
theorem scan_length_le {stop : Span} {slot : Slot} {frames : List Frame} {tokens : List Token}
    {slot' : Slot} {rest : List Token}
    (h : scan stop slot frames tokens = .ok (slot', rest)) : rest.length ≤ tokens.length := by
  fun_induction scan stop slot frames tokens generalizing slot' rest with
  | case1 slot =>
    cases h
    exact Nat.le_refl _
  | case2 slot f fs =>
    obtain ⟨_, _, h⟩ := bind_eq_ok_iff.1 h
    cases h
  | case3 slot frames t ts hopen ih => exact Nat.le_succ_of_le (ih h)
  | case4 slot t ts hopen hcomma =>
    cases h
    exact Nat.le_refl _
  | case5 slot t ts hopen hcomma f fs ih =>
    obtain ⟨node, _, h⟩ := bind_eq_ok_iff.1 h
    exact Nat.le_succ_of_le (ih node h)
  | case6 slot t ts hopen hcomma hclose =>
    cases h
    exact Nat.le_refl _
  | case7 slot t ts hopen hcomma hclose f fs ih =>
    obtain ⟨items, _, h⟩ := bind_eq_ok_iff.1 h
    split at h
    · exact Nat.le_succ_of_le (ih items h)
    · cases h
  | case8 slot frames t ts hopen hcomma hclose ih =>
    obtain ⟨next, _, h⟩ := bind_eq_ok_iff.1 h
    exact Nat.le_succ_of_le (ih next h)

/-- A token that does not end an expression outside brackets is used up. -/
theorem scan_length_lt {stop : Span} {slot : Slot} {t : Token} {ts : List Token}
    {slot' : Slot} {rest : List Token}
    (hcomma : t.kind ≠ .comma)
    (hclose : t.kind.closesList = false)
    (h : scan stop slot [] (t :: ts) = .ok (slot', rest)) : rest.length ≤ ts.length := by
  rw [scan.eq_def] at h
  simp only [hcomma, hclose, if_false, Bool.false_eq_true] at h
  split at h
  · exact scan_length_le h
  · obtain ⟨next, _, h⟩ := bind_eq_ok_iff.1 h
    exact scan_length_le h

/-- An expression is made of one token at least. -/
theorem parseExpression_length_lt {tokens rest : List Token} {node : Node}
    (h : parseExpression tokens = (.ok (some node), rest)) : rest.length < tokens.length := by
  cases tokens with
  | nil => simp [parseExpression] at h
  | cons t ts =>
    simp only [parseExpression] at h
    split at h
    · simp at h
    · next hclose =>
      split at h
      · simp at h
      · next slot hs =>
        simp only [Prod.mk.injEq] at h
        rw [← h.2]
        exact Nat.succ_pos _
      · next slot c cs hs =>
        simp only [Prod.mk.injEq] at h
        rw [← h.2]
        -- A comma in front ends an empty expression at once, and is used up as the comma behind it.
        by_cases hcomma : t.kind = .comma
        · have hscan : scan (endSpan (t :: ts)) .empty [] (t :: ts) = .ok (.empty, t :: ts) := by
            rw [scan.eq_def]
            simp [hcomma, opensFrame]
          rw [hscan] at hs
          cases hs
          simp [hcomma]
        · have hle := scan_length_lt hcomma (by simpa using hclose) hs
          split
          · simp only [List.length_cons] at hle ⊢
            omega
          · simp only [List.length_cons] at hle ⊢
            omega

/-- Reads expressions until there is none, and stops at the end of the tokens or in front of a
closing token. -/
def parseParameters (tokens : List Token) : Except ParseError (List Node × List Token) :=
  match _hread : parseExpression tokens with
  | (.error e, _) => .error e
  | (.ok none, rest) => .ok ([], rest)
  | (.ok (some node), rest) => do
    let (nodes, rest) ← parseParameters rest
    return (node :: nodes, rest)
termination_by tokens.length
decreasing_by exact parseExpression_length_lt _hread

/-! ## Reading instructions

An instruction is the name of a function, a colon that may be left out, expressions with commas
between them and, behind an arrow, names of modifiers with commas between them.  A comma may follow
the last expression.
-/

/-- Reads one name or more, with commas between them; `stop` is the place behind the tokens. -/
def parseModifiers (stop : Span) : List Token → Except ParseError (List String × List Token)
  | [] => .error (.expectedModifierName stop)
  | t :: ts =>
    if t.kind = .identifier then
      match ts with
      | [] => .ok ([t.text], [])
      | c :: cs =>
        if c.kind = .comma then do
          let (names, rest) ← parseModifiers stop cs
          return (t.text :: names, rest)
        else .ok ([t.text], c :: cs)
    else .error (.expectedModifierName t.span)

def expectEnd : List Token → Except ParseError Unit
  | [] => .ok ()
  | t :: _ => .error (.unexpectedToken t.kind t.span)

end Parser

/-- An instruction with the names that its text has. -/
structure ParsedInstruction where
  function : String
  functionSpan : Span
  parameters : List Node
  modifiers : List String
deriving Inhabited

open Edict.Parser

def parseParameterList (tokens : List Token) : Except ParseError (List Node) := do
  let (nodes, rest) ← parseParameters tokens
  expectEnd rest
  return nodes

/-- Reads exactly one expression. -/
def parseSingleExpression (tokens : List Token) : Except ParseError Node := do
  match ← parseParameterList tokens with
  | [node] => .ok node
  | [] => .error (.emptyExpression (endSpan tokens))
  | nodes => .error (.notSingleExpression nodes.length)

def parseInstruction (tokens : List Token) : Except ParseError ParsedInstruction :=
  match tokens with
  | [] => .error .emptyInstruction
  | name :: ts =>
    if name.kind = .identifier then do
      let ts := match ts with
        | c :: cs => if c.kind = .colon then cs else c :: cs
        | [] => []
      let (parameters, rest) ← parseParameters ts
      let (modifiers, rest) ← match rest with
        | arrow :: names =>
          if arrow.kind = .arrow then parseModifiers (endSpan tokens) names
          else .ok ([], arrow :: names)
        | [] => .ok ([], [])
      expectEnd rest
      return ⟨name.text, name.span, parameters, modifiers⟩
    else .error (.expectedFunctionName name.kind name.span)

end Edict
