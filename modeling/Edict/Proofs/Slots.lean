import Edict.Proofs.Grammar

namespace Edict.Parser

/-! # What a slot does with a token

The operators that wait in a slot are applied from the newest to the oldest, by whoever asks for it:
a looser operator, a parenthesis, a `:` or the end.  All four ways go on as long as the operators
bind tightly enough (`AppliesDownTo`), which is all that the arguments about them need.

Then, token by token in the terms of the grammar, what reading makes of a slot.
-/

/-! ## Operators that wait -/

/-- Everything that waits here is an operator of the level `low` or a tighter one. -/
def Tighter (low : Nat) (waiting : List Pending) : Prop :=
  ∀ p ∈ waiting, ∃ b, p.binding? = some b ∧ low ≤ b.level

/-- If an operator waits on top, then it is looser than `level`. -/
def Loose (level : Nat) : List Pending → Prop
  | [] => True
  | p :: _ => ∀ b, p.binding? = some b → b.level < level

section

variable {level level' : Nat} {waiting : List Pending} {p : Pending}

/-- What binds tighter than a level binds tighter than all below it. -/
theorem Tighter.mono (h : Tighter level waiting) (hle : level' ≤ level) :
    Tighter level' waiting := by
  intro p hp
  rcases h p hp with ⟨b, hb, hlow⟩
  exact ⟨b, hb, by omega⟩

theorem Tighter.tail (h : Tighter level (p :: waiting)) : Tighter level waiting :=
  fun q hq => h q (by simp [hq])

/-- What is loose at a level is loose at all above it. -/
theorem Loose.mono (h : Loose level waiting) (hle : level ≤ level') : Loose level' waiting := by
  cases waiting with
  | nil => trivial
  | cons p ps =>
    intro b hb
    have hlt := h b hb
    omega

/-- An operator in front that binds less tightly makes what waits loose. -/
theorem loose_cons {b : Binding} (hb : p.binding? = some b) (hlt : b.level < level) :
    Loose level (p :: waiting) := by
  intro b' hb'
  rw [hb] at hb'
  cases hb'
  exact hlt

/-- Parentheses and open questions are looser than anything. -/
theorem loose_cons_of_none (hb : p.binding? = none) : Loose level (p :: waiting) := by
  intro b hb'
  rw [hb] at hb'
  cases hb'

end

/-- An operator that groups to the left gives way to its own level and to tighter ones. -/
@[simp] theorem yieldsTo_left (op : Op) (level : Nat) (top : Binding) :
    (Binding.left op level).yieldsTo top = true ↔ level ≤ top.level := by
  show (decide (level < top.level) || (decide (level = top.level) && true)) = true ↔ _
  simp
  omega

/-- The ternary gives way to tighter operators alone, and so groups to the right. -/
@[simp] theorem yieldsTo_ternary (top : Binding) :
    Binding.ternary.yieldsTo top = true ↔ 1 ≤ top.level := by
  show (decide (0 < top.level) || (decide (0 = top.level) && false)) = true ↔ _
  simp
  omega

/-! ### Applying one of them -/

section

variable {op : Op} {l : Nat}

/-- An operator of two operands takes the two newest expressions, the newer one for its right. -/
theorem reduce_dyadic (harity : op.arity = 2) (span : Span) (left right : Node)
    (nodes : List Node) :
    reduce (right :: left :: nodes) (.operator (.left op l) span)
      = .ok (.apply op [left, right] :: nodes) := by
  simp [reduce, applyTop, Binding.left, harity]

theorem reduce_monadic (harity : op.arity = 1) (span : Span) (operand : Node)
    (nodes : List Node) :
    reduce (operand :: nodes) (.operator (.left op l) span)
      = .ok (.apply op [operand] :: nodes) := by
  simp [reduce, applyTop, Binding.left, harity]

/-- A question that is settled takes the three newest expressions. -/
theorem reduce_otherwise (span : Span) (condition yes no : Node) (nodes : List Node) :
    reduce (no :: yes :: condition :: nodes) (.otherwise span)
      = .ok (.apply .ternary [condition, yes, no] :: nodes) := by
  simp [reduce, applyTop, Op.arity]

end

/-! ### Applying a run of them -/

/-- A way to apply waiting operators that goes on as long as they bind at `level` or tighter. -/
def AppliesDownTo {α : Type} (level : Nat)
    (f : List Node → List Pending → Except ParseError α) : Prop :=
  ∀ (p : Pending) (b : Binding), p.binding? = some b → level ≤ b.level →
    ∀ nodes pending, f nodes (p :: pending) = (reduce nodes p >>= fun nodes => f nodes pending)

/-- An incoming operator applies all that waits and that it gives way to. -/
theorem appliesDownTo_reduceYielding {incoming : Binding} {level : Nat}
    (h : ∀ b : Binding, level ≤ b.level → incoming.yieldsTo b = true) :
    AppliesDownTo level (reduceYielding incoming) := by
  intro p b hb hlevel nodes pending
  rw [reduceYielding, hb]
  simp only [h b hlevel, if_true]

theorem appliesDownTo_reduceToParen (close : Span) : AppliesDownTo 0 (reduceToParen close) := by
  intro p b hb _ nodes pending
  cases p <;> first | rfl | cases hb

theorem appliesDownTo_reduceToQuestion (colon : Span) :
    AppliesDownTo 0 (reduceToQuestion colon) := by
  intro p b hb _ nodes pending
  cases p <;> first | rfl | cases hb

theorem appliesDownTo_reduceAll : AppliesDownTo 0 reduceAll :=
  fun _ _ _ _ _ _ => rfl

namespace AppliesDownTo

variable {α : Type} {level level' : Nat} {f : List Node → List Pending → Except ParseError α}
  {nodes nodes' : List Node}

/-- What is applied down to a level is applied down to all above it. -/
theorem mono (hf : AppliesDownTo level f) (hle : level ≤ level') : AppliesDownTo level' f :=
  fun p b hb hlevel => hf p b hb (by omega)

theorem step (hf : AppliesDownTo level f) {p : Pending} {b : Binding} (hb : p.binding? = some b)
    (hlevel : level ≤ b.level) (hreduce : reduce nodes p = .ok nodes') (pending : List Pending) :
    f nodes (p :: pending) = f nodes' pending := by
  rw [hf p b hb hlevel, hreduce]
  rfl

/-- A run of operators that all bind tightly enough is applied before what is older. -/
theorem append (hf : AppliesDownTo level f) {newer : List Pending} (htighter : Tighter level newer)
    (h : reduceAll nodes newer = .ok nodes') (older : List Pending) :
    f nodes (newer ++ older) = f nodes' older := by
  -- `hf` makes the newest operator of the run the first that is applied.
  induction newer generalizing nodes with
  | nil =>
    cases h
    rfl
  | cons p ps ih =>
    rcases htighter p (by simp) with ⟨b, hb, hlow⟩
    rw [reduceAll] at h
    rcases bind_eq_ok_iff.1 h with ⟨between, hreduce, hrest⟩
    rw [List.cons_append, hf.step hb hlow hreduce]
    exact ih htighter.tail hrest

end AppliesDownTo

/-- An operator leaves alone what is looser than all that it yields to. -/
theorem reduceYielding_of_loose {incoming : Binding} {level : Nat} {waiting : List Pending}
    (hloose : Loose level waiting)
    (hyields : ∀ b : Binding, incoming.yieldsTo b = true → level ≤ b.level)
    (nodes : List Node) :
    reduceYielding incoming nodes waiting = .ok (nodes, waiting) := by
  cases waiting with
  | nil => rfl
  | cons p ps =>
    rw [reduceYielding]
    cases hb : p.binding? with
    | none => rfl
    | some b =>
      have hlt := hloose b hb
      have hstays : ¬incoming.yieldsTo b = true := by
        intro h
        have hle := hyields b h
        omega
      simp only [hstays]
      rfl

/-! ## Tokens -/

section

variable {slot : Slot} {t : Token} {op : Op} {l : Nat}

/-- A token that neither opens or closes a bracket nor separates expressions. -/
def IsPlain (kind : TokenKind) : Prop :=
  opensFrame kind = false ∧ kind ≠ .comma ∧ kind.closesList = false

instance (kind : TokenKind) : Decidable (IsPlain kind) :=
  inferInstanceAs (Decidable (_ ∧ _ ∧ _))

/-- A plain token is read in the slot, and reading goes on behind it. -/
theorem scan_of_read {slot' : Slot} (hplain : IsPlain t.kind) (h : slot.read t = .ok slot')
    (stop : Span) (frames : List Frame) (ts : List Token) :
    scan stop slot frames (t :: ts) = scan stop slot' frames ts := by
  rcases hplain with ⟨hopen, hcomma, hclose⟩
  rw [scan.eq_def]
  simp only [hopen, hcomma, hclose, if_false, Bool.false_eq_true, h]
  rfl

/-- The kinds of tokens exclude each other: what is an operator opens no bracket, ends no
expression, and is no value. -/
theorem isPlain_of_dyadic? (ht : t.kind.dyadic? = some (op, l)) : IsPlain t.kind := by
  revert ht
  cases t.kind <;> intro ht <;> first | decide | cases ht

theorem isPlain_of_monadic? (ht : t.kind.monadic? = some (op, l)) : IsPlain t.kind := by
  revert ht
  cases t.kind <;> intro ht <;> first | decide | cases ht

theorem level_pos_of_dyadic? (ht : t.kind.dyadic? = some (op, l)) : 1 ≤ l := by
  revert ht
  cases t.kind <;> intro ht <;> cases ht <;> decide

theorem level_pos_of_monadic? (ht : t.kind.monadic? = some (op, l)) : 1 ≤ l := by
  revert ht
  cases t.kind <;> intro ht <;> cases ht <;> decide

theorem arity_of_dyadic? (ht : t.kind.dyadic? = some (op, l)) : op.arity = 2 := by
  revert ht
  cases t.kind <;> intro ht <;> cases ht <;> rfl

theorem arity_of_monadic? (ht : t.kind.monadic? = some (op, l)) : op.arity = 1 := by
  revert ht
  cases t.kind <;> intro ht <;> cases ht <;> rfl

/-- Behind an operator an operand is due, so that a sign may follow. -/
theorem startsOperand_of_dyadic? (ht : t.kind.dyadic? = some (op, l)) :
    t.kind.startsOperand = true := by
  revert ht
  cases t.kind <;> intro ht <;> first | decide | cases ht

theorem startsOperand_of_monadic? (ht : t.kind.monadic? = some (op, l)) :
    t.kind.startsOperand = true := by
  revert ht
  cases t.kind <;> intro ht <;> first | decide | cases ht

/-- Where an operand is due, an operator that can stand before one does. -/
theorem read_of_monadic? (ht : t.kind.monadic? = some (op, l)) (hdue : slot.expectsOperand = true) :
    slot.read t = .ok ⟨slot.nodes, .operator (.left op l) t.span :: slot.pending, some t⟩ := by
  rcases t with ⟨kind, text, span⟩
  cases kind <;> cases ht <;> simp [Slot.read, Slot.binding?, hdue] <;> rfl

/-- Where no operand is due, an operator that can stand between operands does. -/
theorem read_of_dyadic? (ht : t.kind.dyadic? = some (op, l)) (hdue : slot.expectsOperand = false) :
    slot.read t = do
      let (nodes, pending) ← reduceYielding (.left op l) slot.nodes slot.pending
      return ⟨nodes, .operator (.left op l) t.span :: pending, some t⟩ := by
  rcases t with ⟨kind, text, span⟩
  cases kind <;> cases ht <;> simp [Slot.read, Slot.binding?, hdue] <;> rfl

/-- An assignment is read as an operator of the lowest level. -/
theorem read_of_assign (ht : t.kind = .assign) :
    slot.read t = do
      let (nodes, pending) ← reduceYielding (.left .assign 0) slot.nodes slot.pending
      return ⟨nodes, .operator (.left .assign 0) t.span :: pending, some t⟩ := by
  rcases t with ⟨kind, text, span⟩
  cases ht
  cases hdue : slot.expectsOperand <;> simp [Slot.read, Slot.binding?, hdue] <;> rfl

/-- A value becomes the newest expression. -/
theorem read_of_isValue {n : Node} (ht : t.kind.isValue = true) (hn : valueNode t = .ok n) :
    slot.read t = .ok ⟨n :: slot.nodes, slot.pending, some t⟩ := by
  rcases t with ⟨kind, text, span⟩
  cases kind <;> cases ht <;>
    simp [Slot.read, TokenKind.isValue, TokenKind.symbol?, hn, bind, Except.bind, pure, Except.pure]

/-! ## Literals and brackets -/

/-- The literals and names of the grammar are values of the parser. -/
theorem isValue_of_leaf? {n : Node} (h : t.leaf? = some n) : t.kind.isValue = true := by
  rcases t with ⟨kind, text, span⟩
  cases kind <;> first | rfl | cases h

theorem isPlain_of_isValue (h : t.kind.isValue = true) : IsPlain t.kind := by
  revert h
  cases t.kind <;> intro h <;> first | decide | cases h

theorem startsOperand_of_isValue (h : t.kind.isValue = true) : t.kind.startsOperand = false := by
  revert h
  cases t.kind <;> intro h <;> first | rfl | cases h

/-- A literal that the parser takes is the leaf that it is on its own. -/
theorem leaf?_of_valueNode {n : Node} (h : t.kind.isValue = true) (hn : valueNode t = .ok n) :
    t.leaf? = some n := by
  rcases t with ⟨kind, text, span⟩
  cases kind with
  | int =>
    -- The digits are the same for both, which ask in different ways whether their number has 32
    -- bits.
    simp only [valueNode, intLiteral?] at hn
    simp only [Token.leaf?]
    cases hinteger : integer? (Token.text ⟨.int, text, span⟩).toList with
    | none =>
      rw [hinteger] at hn
      cases hn
    | some z =>
      rw [hinteger] at hn
      simp only [Option.bind_some, int32?] at hn
      split at hn
      · next v hv =>
        cases hn
        split at hv
        · cases hv
          rfl
        · cases hv
      · cases hn
  | float =>
    simp only [valueNode] at hn
    simp only [Token.leaf?]
    split at hn
    · next v hv =>
      cases hn
      rw [hv]
      rfl
    · cases hn
  | bool | str | identifier =>
    cases hn
    rfl
  | _ => cases h

/-- A leaf is a literal that the parser takes, unless it is an integer that does not fit. -/
theorem valueNode_of_leaf? {n : Node} (h : t.leaf? = some n)
    (hfit : t.kind = .int → (intLiteral? t.text).isSome = true) : valueNode t = .ok n := by
  cases hvalue : valueNode t with
  | ok n' =>
    have hleaf := leaf?_of_valueNode (isValue_of_leaf? h) hvalue
    rw [h] at hleaf
    cases hleaf
    rfl
  | error e =>
    rcases t with ⟨kind, text, span⟩
    cases kind with
    | int =>
      rcases Option.isSome_iff_exists.mp (hfit rfl) with ⟨v, hv⟩
      simp only [valueNode, hv] at hvalue
      cases hvalue
    | float =>
      simp only [Token.leaf?, Option.map_eq_some_iff] at h
      rcases h with ⟨v, hv, -⟩
      simp only [valueNode, hv] at hvalue
      cases hvalue
    | bool | str | identifier => cases hvalue
    | _ => cases h

/-- An identifier right before a bracket is taken off the finished expressions again. -/
theorem ofToken_of_identifier {i : Token} (hlast : slot.last? = some i)
    (hi : i.kind = .identifier) (o : Token) :
    Frame.ofToken slot o = ⟨o, i.text, [], { slot with nodes := slot.nodes.drop 1 }⟩ := by
  simp [Frame.ofToken, hlast, hi]

/-- Where an operand is due, a bracket has no tag. -/
theorem ofToken_of_expectsOperand (hdue : slot.expectsOperand = true) (o : Token) :
    Frame.ofToken slot o = ⟨o, "", [], slot⟩ := by
  unfold Frame.ofToken
  unfold Slot.expectsOperand at hdue
  cases hlast : slot.last? with
  | none => rfl
  | some before =>
    rw [hlast] at hdue
    have hne : before.kind ≠ .identifier := by
      intro h
      simp only [h] at hdue
      cases hdue
    simp only [hne, if_false]

/-- A literal that stands for no value fails where it is read. -/
theorem read_of_isValue_error {e : ParseError} (ht : t.kind.isValue = true)
    (hn : valueNode t = .error e) : slot.read t = .error e := by
  rcases t with ⟨kind, text, span⟩
  cases kind <;> cases ht <;>
    simp [Slot.read, TokenKind.isValue, TokenKind.symbol?, hn, bind, Except.bind]

end

/-! ## A single expression -/

/-- A list of expressions is its first one and the list behind that. -/
theorem parseParameters_of_some {ts rest : List Token} {n : Node}
    (h : parseExpression ts = (.ok (some n), rest)) :
    parseParameters ts = (do
      let (nodes, rest) ← parseParameters rest
      return (n :: nodes, rest)) := by
  rw [parseParameters]
  split
  · next hread => simp [hread] at h
  · next hread => simp [hread] at h
  · next hread =>
    rw [hread] at h
    cases h
    rfl

/-- A list of expressions fails as its first one does. -/
theorem parseParameters_of_error {e : ParseError} {ts rest : List Token}
    (h : parseExpression ts = (.error e, rest)) : parseParameters ts = .error e := by
  rw [parseParameters]
  split
  · next hread =>
    rw [hread] at h
    cases h
    rfl
  · next hread => simp [hread] at h
  · next hread => simp [hread] at h

/-- A list of expressions ends where none starts. -/
theorem parseParameters_of_closesList {ts : List Token}
    (hclose : ∀ t ∈ ts.head?, t.kind.closesList = true) :
    parseParameters ts = .ok ([], ts) := by
  have hread : parseExpression ts = (.ok none, ts) := by
    cases ts with
    | nil => rfl
    | cons t ts => rw [parseExpression, if_pos (hclose t rfl)]
  rw [parseParameters, hread]

/-- An expression that takes up all tokens is the only one. -/
theorem parseSingleExpression_of_some {ts : List Token} {n : Node}
    (h : parseExpression ts = (.ok (some n), [])) : parseSingleExpression ts = .ok n := by
  rw [parseSingleExpression, parseParameterList, parseParameters_of_some h, parseParameters]
  rfl

end Edict.Parser
