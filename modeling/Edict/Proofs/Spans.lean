import Edict.Parser.Expression

namespace Edict

/-! # Places do not matter to the parser

The parser goes by the kinds and the texts of tokens.  Where they stand is copied into errors and
read nowhere, so that tokens without their spans give the same expressions, and the same errors but
for the places in them.

Main statements:

* `scan_bare`: tokens without their spans are read to the same expression and leave the same rest;
* `parseParameters_congr`: what a list of expressions is depends on nothing but the kinds and the
  texts of its tokens;
* `parseInstruction_bare`: the same goes for an instruction.
-/

/-- The token without its place. -/
def Token.bare (t : Token) : Token := { t with span := .origin }

def ParseError.bare : ParseError → ParseError
  | emptyInstruction => emptyInstruction
  | expectedFunctionName found _ => expectedFunctionName found .origin
  | expectedModifierName _ => expectedModifierName .origin
  | unexpectedToken found _ => unexpectedToken found .origin
  | unmatchedOpenParen _ => unmatchedOpenParen .origin
  | unmatchedCloseParen _ => unmatchedCloseParen .origin
  | unclosedDelimiter opening _ => unclosedDelimiter opening .origin
  | missingOperand op _ => missingOperand op .origin
  | emptyExpression _ => emptyExpression .origin
  | danglingOperands count _ => danglingOperands count .origin
  | missingTernaryElse _ => missingTernaryElse .origin
  | unexpectedColon _ => unexpectedColon .origin
  | invalidLiteral kind text _ => invalidLiteral kind text .origin
  | notSingleExpression count => notSingleExpression count

namespace Parser

/-! ## Outcomes without places -/

section

variable {α α' β β' : Type}

/-- The outcome without the place in its error, where `f` takes away the places in its result. -/
def bareOutcome (f : α → α') : Except ParseError α → Except ParseError α'
  | .ok a => .ok (f a)
  | .error e => .error e.bare

/-- Steps that do not see places do not see them one after the other. -/
theorem bareOutcome_bind {f : α → α'} {g : β → β'} {first : Except ParseError α}
    {first' : Except ParseError α'} {next : α → Except ParseError β}
    {next' : α' → Except ParseError β'} (hfirst : first' = bareOutcome f first)
    (hnext : ∀ a, next' (f a) = bareOutcome g (next a)) :
    (first' >>= next') = bareOutcome g (first >>= next) := by
  rw [hfirst]
  cases first with
  | error e => rfl
  | ok a => exact hnext a

/-- Without places, a result is the result without its places. -/
theorem bareOutcome_eq_ok_iff {f : α → α'} {outcome : Except ParseError α} {a' : α'} :
    bareOutcome f outcome = .ok a' ↔ ∃ a, outcome = .ok a ∧ f a = a' := by
  cases outcome with
  | error e => simp [bareOutcome]
  | ok a => simp [bareOutcome]

end

/-! ## Slots -/

/-- What waits, without its place. -/
def Pending.bare : Pending → Pending
  | .paren _ => .paren .origin
  | .operator binding _ => .operator binding .origin
  | .question _ => .question .origin
  | .otherwise _ => .otherwise .origin

def Slot.bare (slot : Slot) : Slot :=
  ⟨slot.nodes, slot.pending.map Pending.bare, slot.last?.map Token.bare⟩

/-- The bracket without the places of what has been read. -/
def Frame.bare (f : Frame) : Frame := ⟨f.opening.bare, f.tag, f.items, f.outer.bare⟩

theorem binding?_bare (p : Pending) : p.bare.binding? = p.binding? := by
  cases p <;> rfl

/-- Operators are applied alike wherever they stand. -/
theorem reduce_bare (nodes : List Node) (p : Pending) :
    reduce nodes p.bare = bareOutcome id (reduce nodes p) := by
  have happly : ∀ op span, applyTop op .origin nodes = bareOutcome id (applyTop op span nodes) := by
    intro op span
    unfold applyTop
    split
    · rfl
    · rfl
  cases p with
  | paren _ | question _ => rfl
  | operator binding span => exact happly binding.op span
  | «otherwise» span => exact happly .ternary span

/-- Expressions and what waits, without the places of that. -/
def barePending (p : List Node × List Pending) : List Node × List Pending :=
  (p.1, p.2.map Pending.bare)

/-- So is any run of them. -/
theorem reduceYielding_bare (incoming : Binding) (nodes : List Node) (pending : List Pending) :
    reduceYielding incoming nodes (pending.map Pending.bare)
      = bareOutcome barePending (reduceYielding incoming nodes pending) := by
  induction pending generalizing nodes with
  | nil => rfl
  | cons p ps ih =>
    rw [List.map_cons, reduceYielding, reduceYielding, binding?_bare]
    split
    · next top _ =>
      by_cases hyields : incoming.yieldsTo top = true
      · rw [if_pos hyields, if_pos hyields]
        exact bareOutcome_bind (reduce_bare nodes p) ih
      · rw [if_neg hyields, if_neg hyields]
        rfl
    · rfl

theorem reduceToParen_bare (close : Span) (nodes : List Node) (pending : List Pending) :
    reduceToParen .origin nodes (pending.map Pending.bare)
      = bareOutcome barePending (reduceToParen close nodes pending) := by
  induction pending generalizing nodes with
  | nil => rfl
  | cons p ps ih =>
    cases p with
    | paren _ => rfl
    | operator binding span => exact bareOutcome_bind (reduce_bare nodes (.operator binding span)) ih
    | question span => rfl
    | «otherwise» span => exact bareOutcome_bind (reduce_bare nodes (.otherwise span)) ih

theorem reduceToQuestion_bare (colon : Span) (nodes : List Node) (pending : List Pending) :
    reduceToQuestion .origin nodes (pending.map Pending.bare)
      = bareOutcome barePending (reduceToQuestion colon nodes pending) := by
  induction pending generalizing nodes with
  | nil => rfl
  | cons p ps ih =>
    cases p with
    | paren _ | question _ => rfl
    | operator binding span => exact bareOutcome_bind (reduce_bare nodes (.operator binding span)) ih
    | «otherwise» span => exact bareOutcome_bind (reduce_bare nodes (.otherwise span)) ih

theorem reduceAll_bare (nodes : List Node) (pending : List Pending) :
    reduceAll nodes (pending.map Pending.bare) = bareOutcome id (reduceAll nodes pending) := by
  induction pending generalizing nodes with
  | nil => rfl
  | cons p ps ih => exact bareOutcome_bind (reduce_bare nodes p) ih

namespace Slot

/-- A slot ends alike wherever it stands. -/
theorem finish_bare (slot : Slot) (place : Span) :
    slot.bare.finish .origin = bareOutcome id (slot.finish place) := by
  refine bareOutcome_bind (reduceAll_bare slot.nodes slot.pending) fun nodes => ?_
  match nodes with
  | [] => rfl
  | [_] => rfl
  | _ :: _ :: _ => rfl

theorem expectsOperand_bare (slot : Slot) : slot.bare.expectsOperand = slot.expectsOperand := by
  rcases slot with ⟨nodes, pending, last?⟩
  cases last? with
  | none => rfl
  | some t => rfl

theorem isStarted_bare (slot : Slot) : slot.bare.isStarted = slot.isStarted := by
  rcases slot with ⟨nodes, pending, last?⟩
  cases last? with
  | none => rfl
  | some t => rfl

/-- What a value stands for does not depend on its place. -/
theorem valueNode_bare (t : Token) : valueNode t.bare = bareOutcome id (valueNode t) := by
  have htext : t.bare.text = t.text := rfl
  have hkind : t.bare.kind = t.kind := rfl
  unfold valueNode
  rw [hkind, htext]
  split
  · cases intLiteral? t.text <;> rfl
  · cases floatLiteral? t.text <;> rfl
  · rfl
  · rfl
  · rfl

/-- A token is read alike wherever it stands. -/
theorem read_bare (slot : Slot) (t : Token) :
    slot.bare.read t.bare = bareOutcome Slot.bare (slot.read t) := by
  have hkind : t.bare.kind = t.kind := rfl
  have hbinding : slot.bare.binding? t.kind = slot.binding? t.kind := by
    rw [binding?, binding?, expectsOperand_bare]
  unfold read
  rw [hkind]
  split
  · rfl
  · exact bareOutcome_bind (reduceToParen_bare t.span slot.nodes slot.pending) fun _ => rfl
  · exact bareOutcome_bind (reduceYielding_bare .ternary slot.nodes slot.pending) fun _ => rfl
  · exact bareOutcome_bind (reduceToQuestion_bare t.span slot.nodes slot.pending) fun _ => rfl
  · rw [hbinding]
    split
    · exact bareOutcome_bind (valueNode_bare t) fun _ => rfl
    · split
      · rfl
      · next binding _ =>
        split
        · rfl
        · exact bareOutcome_bind (reduceYielding_bare binding slot.nodes slot.pending) fun _ => rfl

end Slot

/-! ## Expressions -/

namespace Frame

/-- The tag of a bracket is the name before it, wherever that stands. -/
theorem ofToken_bare (slot : Slot) (t : Token) :
    ofToken slot.bare t.bare = (ofToken slot t).bare := by
  rcases slot with ⟨nodes, pending, last?⟩
  cases last? with
  | none => rfl
  | some before =>
    have hkind : before.bare.kind = before.kind := rfl
    simp only [ofToken, Slot.bare, Option.map_some, hkind]
    split
    · rfl
    · rfl

theorem closer_bare (f : Frame) : f.bare.closer = f.closer := rfl

/-- A bracket closes alike wherever it stands. -/
theorem close_bare (f : Frame) (slot : Slot) (place : Span) :
    f.bare.close slot.bare .origin = bareOutcome id (f.close slot place) := by
  unfold close
  rw [Slot.isStarted_bare]
  split
  · exact bareOutcome_bind (slot.finish_bare place) fun _ => rfl
  · rfl

end Frame

/-- A slot and the tokens to go on with, without their places. -/
def bareRest (p : Slot × List Token) : Slot × List Token := (p.1.bare, p.2.map Token.bare)

/-- Tokens without their spans are read to the same expression, up to the same place. -/
theorem scan_bare (stop : Span) (slot : Slot) (frames : List Frame) (tokens : List Token) :
    scan .origin slot.bare (frames.map Frame.bare) (tokens.map Token.bare)
      = bareOutcome bareRest (scan stop slot frames tokens) := by
  -- Places are only copied into nodes and errors; which step is taken depends on the kinds.
  have hkind : ∀ t : Token, t.bare.kind = t.kind := fun _ => rfl
  fun_induction scan stop slot frames tokens with
  | case1 slot => rfl
  | case2 slot f fs =>
    rw [List.map_nil, List.map_cons, scan]
    exact bareOutcome_bind (f.close_bare slot stop) fun _ => rfl
  | case3 slot frames t ts hopen ih =>
    rw [List.map_cons, scan.eq_def]
    simp only [hkind, hopen, if_true, Frame.ofToken_bare]
    exact ih
  | case4 slot t ts hopen hcomma =>
    rw [List.map_cons, scan.eq_def]
    simp only [hkind, hcomma, if_true, List.map_nil]
    rfl
  | case5 slot t ts hopen hcomma f fs ih =>
    rw [List.map_cons, scan.eq_def]
    simp only [hkind, hcomma, if_true, List.map_cons]
    exact bareOutcome_bind (slot.finish_bare t.span) ih
  | case6 slot t ts hopen hcomma hclose =>
    rw [List.map_cons, scan.eq_def]
    simp only [hkind, hopen, hcomma, hclose, if_true, if_false, List.map_nil]
    rfl
  | case7 slot t ts hopen hcomma hclose f fs ih =>
    rw [List.map_cons, scan.eq_def]
    simp only [hkind, hopen, hcomma, hclose, if_true, if_false, List.map_cons, Frame.closer_bare]
    refine bareOutcome_bind (f.close_bare slot t.span) fun items => ?_
    split
    · exact ih items
    · rfl
  | case8 slot frames t ts hopen hcomma hclose ih =>
    rw [List.map_cons, scan.eq_def]
    simp only [hkind, hopen, hcomma, hclose, if_false]
    exact bareOutcome_bind (slot.read_bare t) ih

theorem endSpan_bare (tokens : List Token) : endSpan (tokens.map Token.bare) = .origin := by
  unfold endSpan
  rw [List.getLast?_map]
  cases tokens.getLast? with
  | none => rfl
  | some t => rfl

/-- What is read does not depend on places, and places are kept in what is left. -/
theorem parseExpression_bare (tokens : List Token) :
    parseExpression (tokens.map Token.bare)
      = (bareOutcome id (parseExpression tokens).1, (parseExpression tokens).2.map Token.bare) := by
  have hkind : ∀ t : Token, t.bare.kind = t.kind := fun _ => rfl
  have hfinish : ∀ (slot : Slot) (place : Span),
      (slot.bare.finish .origin).map some = bareOutcome id ((slot.finish place).map some) := by
    intro slot place
    rw [slot.finish_bare place]
    cases slot.finish place <;> rfl
  cases tokens with
  | nil => rfl
  | cons t ts =>
    have hend : endSpan (t.bare :: ts.map Token.bare) = .origin := endSpan_bare (t :: ts)
    have hscan : scan .origin .empty [] (t.bare :: ts.map Token.bare)
        = bareOutcome bareRest (scan (endSpan (t :: ts)) .empty [] (t :: ts)) :=
      scan_bare _ .empty [] (t :: ts)
    rw [List.map_cons, parseExpression, parseExpression, hkind, hend, hscan]
    by_cases hcloses : t.kind.closesList = true
    · rw [if_pos hcloses, if_pos hcloses]
      rfl
    · rw [if_neg hcloses, if_neg hcloses]
      rcases scan (endSpan (t :: ts)) .empty [] (t :: ts) with e | ⟨slot, _ | ⟨c, cs⟩⟩
      · rfl
      · simp only [bareOutcome, bareRest, List.map_nil, hfinish slot (endSpan (t :: ts))]
      · have hplace : c.bare.span = .origin := rfl
        simp only [bareOutcome, bareRest, List.map_cons, hkind, hplace, hfinish slot c.span]
        by_cases hcomma : c.kind = .comma
        · rw [if_pos hcomma, if_pos hcomma]
        · rw [if_neg hcomma, if_neg hcomma, List.map_cons]

/-- Expressions and the tokens to go on with, without their places. -/
def bareParameters (p : List Node × List Token) : List Node × List Token :=
  (p.1, p.2.map Token.bare)

/-- Nor does a list of expressions, the names of modifiers or what may be left behind them. -/
theorem parseParameters_bare (tokens : List Token) :
    parseParameters (tokens.map Token.bare) = bareOutcome bareParameters (parseParameters tokens) := by
  fun_induction parseParameters tokens with
  | case1 tokens e rest hread =>
    have hbare := parseExpression_bare tokens
    rw [hread] at hbare
    rw [parseParameters, hbare]
    rfl
  | case2 tokens rest hread =>
    have hbare := parseExpression_bare tokens
    rw [hread] at hbare
    rw [parseParameters, hbare]
    rfl
  | case3 tokens node rest hread ih =>
    have hbare := parseExpression_bare tokens
    rw [hread] at hbare
    rw [parseParameters, hbare]
    exact bareOutcome_bind ih fun _ => rfl

/-- What a list of expressions is depends on nothing but the kinds and the texts of its tokens. -/
theorem parseParameters_congr {tokens tokens' : List Token} {nodes : List Node}
    (hsame : tokens'.map Token.bare = tokens.map Token.bare)
    (h : parseParameters tokens = .ok (nodes, [])) : parseParameters tokens' = .ok (nodes, []) := by
  have hbare := parseParameters_bare tokens
  rw [h, ← hsame, parseParameters_bare] at hbare
  rcases bareOutcome_eq_ok_iff.mp hbare with ⟨⟨nodes', rest⟩, hread, heq⟩
  obtain rfl : nodes' = nodes := congrArg Prod.fst heq
  have hrest : rest.map Token.bare = [] := congrArg Prod.snd heq
  rw [hread, List.map_eq_nil_iff.mp hrest]

end Parser

open Edict.Parser

/-- A list of expressions takes up all tokens. -/
theorem parseParameterList_eq_ok_iff {tokens : List Token} {nodes : List Node} :
    parseParameterList tokens = .ok nodes ↔ parseParameters tokens = .ok (nodes, []) := by
  constructor
  · intro h
    rcases bind_eq_ok_iff.mp h with ⟨⟨nodes', rest⟩, hread, hend⟩
    rcases bind_eq_ok_iff.mp hend with ⟨_, hrest, hnodes⟩
    obtain rfl : nodes' = nodes := Except.ok.inj hnodes
    cases rest with
    | cons t ts => cases hrest
    | nil => exact hread
  · intro h
    rw [parseParameterList, h]
    rfl

/-- A single expression is a list of expressions that has one. -/
theorem parseSingleExpression_eq_ok_iff {tokens : List Token} {n : Node} :
    parseSingleExpression tokens = .ok n ↔ parseParameters tokens = .ok ([n], []) := by
  rw [← parseParameterList_eq_ok_iff]
  constructor
  · intro h
    rcases bind_eq_ok_iff.mp h with ⟨nodes, hlist, hsingle⟩
    match nodes, hsingle with
    | [m], hsingle =>
      obtain rfl : m = n := Except.ok.inj hsingle
      exact hlist
  · intro h
    rw [parseSingleExpression, h]
    rfl

/-- Nor does what a single expression is depend on more. -/
theorem parseSingleExpression_congr {tokens tokens' : List Token} {n : Node}
    (hsame : tokens'.map Token.bare = tokens.map Token.bare)
    (h : parseSingleExpression tokens = .ok n) : parseSingleExpression tokens' = .ok n :=
  parseSingleExpression_eq_ok_iff.mpr
    (parseParameters_congr hsame (parseSingleExpression_eq_ok_iff.mp h))

/-! ## Instructions -/

namespace Parser

/-- Names and the tokens to go on with, without their places. -/
def bareNames (p : List String × List Token) : List String × List Token :=
  (p.1, p.2.map Token.bare)

theorem parseModifiers_bare (stop : Span) (tokens : List Token) :
    parseModifiers .origin (tokens.map Token.bare)
      = bareOutcome bareNames (parseModifiers stop tokens) := by
  have hkind : ∀ t : Token, t.bare.kind = t.kind := fun _ => rfl
  fun_induction parseModifiers stop tokens with
  | case1 => rfl
  | case2 t hname =>
    simp only [List.map_cons, List.map_nil, parseModifiers, hkind, if_pos hname]
    rfl
  | case3 t hname c cs hcomma ih =>
    simp only [List.map_cons, parseModifiers, hkind, if_pos hname, if_pos hcomma]
    exact bareOutcome_bind ih fun _ => rfl
  | case4 t hname c cs hcomma =>
    simp only [List.map_cons, parseModifiers, hkind, if_pos hname, if_neg hcomma]
    rfl
  | case5 t ts hname =>
    rw [List.map_cons, parseModifiers.eq_def]
    simp only [hkind, if_neg hname]
    rfl

theorem expectEnd_bare (tokens : List Token) :
    expectEnd (tokens.map Token.bare) = bareOutcome id (expectEnd tokens) := by
  cases tokens with
  | nil => rfl
  | cons t ts => rfl

end Parser

/-- Tokens without their spans are read to the same expressions. -/
theorem parseParameterList_bare (tokens : List Token) :
    parseParameterList (tokens.map Token.bare) = bareOutcome id (parseParameterList tokens) := by
  refine bareOutcome_bind (parseParameters_bare tokens) fun p => ?_
  exact bareOutcome_bind (expectEnd_bare p.2) fun _ => rfl

/-- Without places, a single expression is read as it is with them. -/
theorem parseSingleExpression_bare (tokens : List Token) :
    parseSingleExpression (tokens.map Token.bare)
      = bareOutcome id (parseSingleExpression tokens) := by
  refine bareOutcome_bind (parseParameterList_bare tokens) fun nodes => ?_
  match nodes with
  | [] => rw [endSpan_bare]; rfl
  | [_] => rfl
  | _ :: _ :: _ => rfl

def ParsedInstruction.bare (p : ParsedInstruction) : ParsedInstruction :=
  { p with functionSpan := .origin }

/-- Tokens without their spans are read to the same instruction. -/
theorem parseInstruction_bare (tokens : List Token) :
    parseInstruction (tokens.map Token.bare)
      = bareOutcome ParsedInstruction.bare (parseInstruction tokens) := by
  have hkind : ∀ t : Token, t.bare.kind = t.kind := fun _ => rfl
  cases tokens with
  | nil => rfl
  | cons name ts =>
    have hend : endSpan (name.bare :: ts.map Token.bare) = .origin := endSpan_bare (name :: ts)
    rw [List.map_cons]
    simp only [parseInstruction, hkind, hend]
    by_cases hname : name.kind = .identifier
    · simp only [if_pos hname]
      refine bareOutcome_bind (f := bareParameters) ?_ fun ⟨parameters, rest⟩ => ?_
      · cases ts with
        | nil => exact parseParameters_bare []
        | cons c cs =>
          by_cases hcolon : c.kind = .colon
          · simp only [List.map_cons, hkind, if_pos hcolon]
            exact parseParameters_bare cs
          · simp only [List.map_cons, hkind, if_neg hcolon]
            exact parseParameters_bare (c :: cs)
      -- What stands behind the modifiers has no place in the result but in its error.
      have hclosed : ∀ p : List String × List Token,
          (do
            let _ ← expectEnd (bareNames p).2
            return ⟨name.bare.text, name.bare.span, parameters, (bareNames p).1⟩)
            = bareOutcome ParsedInstruction.bare (do
                let _ ← expectEnd p.2
                return ⟨name.text, name.span, parameters, p.1⟩) :=
        fun p => bareOutcome_bind (expectEnd_bare p.2) fun _ => rfl
      cases rest with
      | nil => exact hclosed ([], [])
      | cons arrow names =>
        simp only [bareParameters, List.map_cons, hkind]
        by_cases harrow : arrow.kind = .arrow
        · simp only [if_pos harrow]
          exact bareOutcome_bind (parseModifiers_bare _ names) hclosed
        · simp only [if_neg harrow]
          exact hclosed ([], arrow :: names)
    · simp only [if_neg hname]
      rfl

end Edict
