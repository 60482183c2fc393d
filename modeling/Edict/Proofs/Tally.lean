import Edict.Proofs.Slots
import Edict.Proofs.Subtrees
import Mathlib.Algebra.Group.Defs

namespace Edict

/-! # What becomes of each token

The parser takes tokens in orders that no grammar has, such as `1 2 +`.  Whatever the order, it
neither loses nor doubles nor moves anything: of the expressions that it makes, the leaves are the
values among the tokens, in their order, and there is one operation for each operator and each `?`,
one list for each `[` and one new object for each `{`.

A tally says how much there is of each of these in expressions, in tokens, or in what waits in a
slot.  What the parser holds has the tally of the tokens read so far, whatever token comes next
(`Accounted`); at the end, it holds the finished expressions alone.

Main statement: `accounts_of_parseParameterList`.
-/

namespace Node

def isLeaf : Node → Bool
  | ident _ => true
  | n => n.isLiteral

def isList : Node → Bool
  | list _ _ => true
  | _ => false

def isConstruct : Node → Bool
  | construct _ _ => true
  | _ => false

/-- Whether the expression is an operation on too few or too many operands. -/
def isMisapplied : Node → Bool
  | apply op operands => operands.length ≠ op.arity
  | _ => false

end Node

namespace Parser

/-! ## Tallies -/

/-- How much there is of what the parser makes: the leaves in their order, and the numbers of
operations, of those on a wrong number of operands, of lists and of new objects. -/
@[ext] structure Tally where
  leaves : List (Except ParseError Node)
  operations : Nat
  misapplied : Nat
  lists : Nat
  constructs : Nat

namespace Tally

instance : Zero Tally := ⟨⟨[], 0, 0, 0, 0⟩⟩

instance : Add Tally where
  add a b := ⟨a.leaves ++ b.leaves, a.operations + b.operations, a.misapplied + b.misapplied,
    a.lists + b.lists, a.constructs + b.constructs⟩

@[simp] theorem zero_leaves : (0 : Tally).leaves = [] := rfl
@[simp] theorem zero_operations : (0 : Tally).operations = 0 := rfl
@[simp] theorem zero_misapplied : (0 : Tally).misapplied = 0 := rfl
@[simp] theorem zero_lists : (0 : Tally).lists = 0 := rfl
@[simp] theorem zero_constructs : (0 : Tally).constructs = 0 := rfl

section

variable (a b c : Tally)

@[simp] theorem add_leaves : (a + b).leaves = a.leaves ++ b.leaves := rfl
@[simp] theorem add_operations : (a + b).operations = a.operations + b.operations := rfl
@[simp] theorem add_misapplied : (a + b).misapplied = a.misapplied + b.misapplied := rfl
@[simp] theorem add_lists : (a + b).lists = a.lists + b.lists := rfl
@[simp] theorem add_constructs : (a + b).constructs = a.constructs + b.constructs := rfl

end

instance : AddMonoid Tally where
  add_assoc a b c := by ext1 <;> simp [Nat.add_assoc]
  zero_add a := by ext1 <;> simp
  add_zero a := by ext1 <;> simp
  nsmul := nsmulRec

instance : IsRightCancelAdd Tally where
  add_right_cancel c a b h := by
    have hleaves := congrArg leaves h
    have hoperations := congrArg operations h
    have hmisapplied := congrArg misapplied h
    have hlists := congrArg lists h
    have hconstructs := congrArg constructs h
    ext1
    · simpa using hleaves
    · simpa using hoperations
    · simpa using hmisapplied
    · simpa using hlists
    · simpa using hconstructs

/-- The leaves alone have an order. -/
theorem add_comm_of_leaves {a : Tally} (h : a.leaves = []) (b : Tally) : a + b = b + a := by
  ext1
  · simp [h]
  · exact Nat.add_comm _ _
  · exact Nat.add_comm _ _
  · exact Nat.add_comm _ _
  · exact Nat.add_comm _ _

def leaf (n : Except ParseError Node) : Tally := ⟨[n], 0, 0, 0, 0⟩

def operation : Tally := ⟨[], 1, 0, 0, 0⟩

/-- What the opening bracket stands for: one list or one new object. -/
def bracket (opening : TokenKind) : Tally :=
  if opening = .openBracket then ⟨[], 0, 0, 1, 0⟩ else ⟨[], 0, 0, 0, 1⟩

theorem bracket_leaves (opening : TokenKind) : (bracket opening).leaves = [] := by
  unfold bracket
  split
  · rfl
  · rfl

/-- The tally of expressions that are listed one by one. -/
def ofParts (parts : List Node) : Tally where
  leaves := (parts.filter Node.isLeaf).map .ok
  operations := parts.countP Node.isOperation
  misapplied := parts.countP Node.isMisapplied
  lists := parts.countP Node.isList
  constructs := parts.countP Node.isConstruct

/-- The tally of trees and all their parts. -/
def ofNodes (ns : List Node) : Tally := ofParts (Node.allSubtrees ns)

/-- Lists of parts are counted one after the other. -/
theorem ofParts_append (parts parts' : List Node) :
    ofParts (parts ++ parts') = ofParts parts + ofParts parts' := by
  ext1 <;> simp [ofParts]

theorem ofNodes_append (ns ms : List Node) : ofNodes (ns ++ ms) = ofNodes ns + ofNodes ms := by
  rw [ofNodes, Node.allSubtrees_append, ofParts_append]
  rfl

/-- An expression counts beside its parts. -/
theorem ofNodes_of_subtrees {n : Node} {ns : List Node} (h : n.subtrees = n :: Node.allSubtrees ns) :
    ofNodes [n] = ofParts [n] + ofNodes ns := by
  have hcons : Node.allSubtrees [n] = [n] ++ Node.allSubtrees ns := by
    simp [Node.allSubtrees, h]
  rw [ofNodes, hcons, ofParts_append]
  rfl

/-- An operation with as many operands as it takes is one operation more than these. -/
theorem ofNodes_apply {op : Op} {operands : List Node} (harity : operands.length = op.arity) :
    ofNodes [.apply op operands] = ofNodes operands + operation := by
  have hone : ofParts [.apply op operands] = operation := by
    ext1 <;> simp [ofParts, operation, Node.isLeaf, Node.isLiteral, Node.isOperation,
      Node.isMisapplied, Node.isList, Node.isConstruct, harity]
  rw [ofNodes_of_subtrees (Node.subtrees_apply op operands), hone, add_comm_of_leaves rfl]

/-- A list is one bracket more than its elements. -/
theorem ofNodes_list (element : Kind) (items : List Node) :
    ofNodes [.list element items] = bracket .openBracket + ofNodes items :=
  ofNodes_of_subtrees (Node.subtrees_list element items)

theorem ofNodes_construct (typeName : String) (fields : List Node) :
    ofNodes [.construct typeName fields] = bracket .openBrace + ofNodes fields :=
  ofNodes_of_subtrees (Node.subtrees_construct typeName fields)

/-- A leaf is itself. -/
theorem ofNodes_leaf {n : Node} (h : n.isLeaf = true) : ofNodes [n] = leaf (.ok n) := by
  cases n with
  | construct _ _ | list _ _ | apply _ _ => cases h
  | _ =>
    ext1 <;> simp [ofNodes, Node.allSubtrees, Node.subtrees, ofParts, leaf, Node.isLeaf,
      Node.isLiteral, Node.isOperation, Node.isMisapplied, Node.isList, Node.isConstruct]

end Tally

/-! ## Tokens -/

/-- Whether the token is an identifier that the one behind it, a bracket, takes as its tag. -/
def isTag (t : Token) (next? : Option Token) : Bool :=
  t.kind = .identifier && next?.any fun next => opensFrame next.kind

/-- The values among the tokens, without the identifiers right before a bracket. -/
def operandTokens : List Token → List Token
  | [] => []
  | t :: ts =>
    if t.kind.isValue && !isTag t ts.head? then t :: operandTokens ts else operandTokens ts

/-- The tally that tokens should make. -/
def Tally.ofTokens (tokens : List Token) : Tally where
  leaves := (operandTokens tokens).map valueNode
  operations := tokens.countP (·.kind.binding?.isSome) + tokens.countP (·.kind = .question)
  misapplied := 0
  lists := tokens.countP (·.kind = .openBracket)
  constructs := tokens.countP (·.kind = .openBrace)

section

variable {u v : List Token} {t i : Token}

/-- Only a bracket changes what the token before it is. -/
theorem operandTokens_append (h : opensFrame t.kind = false) :
    operandTokens (u ++ t :: v) = operandTokens u ++ operandTokens (t :: v) := by
  induction u with
  | nil => rfl
  | cons a u ih =>
    have hnext : isTag a (u ++ t :: v).head? = isTag a u.head? := by
      cases u with
      | nil => simp [isTag, h]
      | cons b u => rfl
    rw [List.cons_append, operandTokens.eq_2 a, operandTokens.eq_2 a, hnext, ih]
    split
    · rw [List.cons_append]
    · rfl

/-- A bracket behind anything but an identifier. -/
theorem operandTokens_bracket (h : opensFrame t.kind = true)
    (hlast : ∀ a, u.getLast? = some a → a.kind ≠ .identifier) :
    operandTokens (u ++ [t]) = operandTokens u := by
  induction u with
  | nil =>
    have hvalue : t.kind.isValue = false := by
      revert h
      cases t.kind <;> intro h <;> first | rfl | cases h
    simp [operandTokens, hvalue]
  | cons a u ih =>
    have hnext : isTag a (u ++ [t]).head? = isTag a u.head? := by
      cases u with
      | nil => simp [isTag, hlast a rfl]
      | cons b u => rfl
    have hrest := ih fun b hb => hlast b (by
      cases u with
      | nil => cases hb
      | cons c u => simpa using hb)
    rw [List.cons_append, operandTokens, hnext, hrest, operandTokens]

/-- A name opens nothing. -/
theorem opensFrame_identifier (hi : i.kind = .identifier) : opensFrame i.kind = false := by
  rw [hi]
  decide

/-- An identifier that a bracket takes as its tag is left out. -/
theorem operandTokens_tag (h : opensFrame t.kind = true) (hi : i.kind = .identifier) :
    operandTokens (u ++ [i, t]) = operandTokens u := by
  have htag : operandTokens [i, t] = [] := by
    have hvalue : t.kind.isValue = false := by
      revert h
      cases t.kind <;> intro h <;> first | rfl | cases h
    simp [operandTokens, isTag, hi, h, hvalue]
  rw [operandTokens_append (opensFrame_identifier hi), htag, List.append_nil]

namespace Tally

/-- Tokens are counted one after the other where the second part does not begin with a bracket,
since the name before a bracket is no leaf. -/
theorem ofTokens_append (h : opensFrame t.kind = false) :
    ofTokens (u ++ t :: v) = ofTokens u + ofTokens (t :: v) := by
  ext1
  · simp [ofTokens, operandTokens_append h]
  · simp only [ofTokens, add_operations, List.countP_append]
    omega
  · rfl
  · simp [ofTokens]
  · simp [ofTokens]

/-- The bracket itself counts, whatever stands before it. -/
theorem ofTokens_bracket (h : opensFrame t.kind = true)
    (hlast : ∀ a, u.getLast? = some a → a.kind ≠ .identifier) :
    ofTokens (u ++ [t]) = ofTokens u + bracket t.kind := by
  ext1
  · simp [ofTokens, operandTokens_bracket h hlast, bracket_leaves]
  all_goals
    revert h
    simp only [ofTokens, bracket, add_operations, add_misapplied, add_lists, add_constructs,
      List.countP_append, List.countP_singleton]
    cases t.kind <;> intro h <;> first | rfl | cases h

/-- An identifier before the bracket is no leaf any more. -/
theorem ofTokens_tag (h : opensFrame t.kind = true) (hi : i.kind = .identifier) :
    ofTokens (u ++ [i, t]) = ofTokens u + bracket t.kind := by
  ext1
  · simp [ofTokens, operandTokens_tag h hi, bracket_leaves]
  all_goals
    revert h
    simp only [ofTokens, bracket, add_operations, add_misapplied, add_lists, add_constructs,
      List.countP_append, List.countP_cons, List.countP_nil, hi]
    cases t.kind <;> intro h <;> first | rfl | cases h

/-- A literal or a name is one leaf. -/
theorem ofTokens_value (h : t.kind.isValue = true) : ofTokens [t] = leaf (valueNode t) := by
  have hcases : t.kind.binding? = none ∧ t.kind ≠ .question ∧ t.kind ≠ .openBracket ∧
      t.kind ≠ .openBrace := by
    revert h
    cases t.kind <;> intro h <;> first | decide | cases h
  ext1 <;> simp [ofTokens, operandTokens, isTag, h, leaf, hcases]

/-- A parenthesis, a colon, a comma or a closing token makes nothing. -/
theorem ofTokens_silent (h : t.kind ∈ [TokenKind.openParen, .closeParen, .colon, .comma,
    .closeBracket, .closeBrace, .arrow]) : ofTokens [t] = 0 := by
  have hcases : t.kind.isValue = false ∧ t.kind.binding? = none ∧ t.kind ≠ .question ∧
      t.kind ≠ .openBracket ∧ t.kind ≠ .openBrace := by
    revert h
    cases t.kind <;> decide
  ext1 <;> simp [ofTokens, operandTokens, hcases]

/-- A comma counts for nothing. -/
theorem ofTokens_comma_cons (h : t.kind = .comma) : ofTokens (t :: v) = ofTokens v := by
  ext1 <;> simp [ofTokens, operandTokens, h, TokenKind.isValue, TokenKind.symbol?,
    TokenKind.binding?]

theorem ofTokens_question (h : t.kind = .question) : ofTokens [t] = operation := by
  ext1 <;> simp [ofTokens, operandTokens, h, operation, TokenKind.isValue, TokenKind.symbol?,
    TokenKind.binding?]

/-- An operator is one operation. -/
theorem ofTokens_operator {b : Binding} (h : t.kind.binding? = some b) :
    ofTokens [t] = operation := by
  have hcases : t.kind.isValue = false ∧ t.kind ≠ .question ∧ t.kind ≠ .openBracket ∧
      t.kind ≠ .openBrace := by
    revert h
    cases t.kind <;> intro h <;> first | decide | cases h
  ext1 <;> simp [ofTokens, operandTokens, h, operation, hcases]

end Tally

end

/-! ## What waits in a slot -/

/-- The operation that will be made of what waits, if it is no parenthesis. -/
def Pending.tally : Pending → Tally
  | .paren _ => 0
  | .operator _ _ | .question _ | .otherwise _ => .operation

/-- The operations that will be made of all that waits. -/
def waitingTally : List Pending → Tally
  | [] => 0
  | p :: ps => p.tally + waitingTally ps

/-- The finished expressions, newest first, and what waits. -/
def heldTally (nodes : List Node) (pending : List Pending) : Tally :=
  .ofNodes nodes.reverse + waitingTally pending

section

variable {nodes nodes' : List Node} {pending pending' : List Pending} {p : Pending}

/-- What waits has no leaves. -/
theorem waitingTally_leaves (pending : List Pending) : (waitingTally pending).leaves = [] := by
  induction pending with
  | nil => rfl
  | cons p ps ih => cases p <;> simp [waitingTally, Pending.tally, Tally.operation, ih]

/-- What is finished comes behind all that was. -/
theorem heldTally_cons (n : Node) (nodes : List Node) (pending : List Pending) :
    heldTally (n :: nodes) pending = heldTally nodes pending + .ofNodes [n] := by
  rw [heldTally, heldTally, List.reverse_cons, Tally.ofNodes_append, add_assoc, add_assoc,
    Tally.add_comm_of_leaves (waitingTally_leaves pending)]

/-- What begins to wait is counted with what is held. -/
theorem heldTally_wait (nodes : List Node) (p : Pending) (pending : List Pending) :
    heldTally nodes (p :: pending) = heldTally nodes pending + p.tally := by
  have hleaves : p.tally.leaves = [] := by cases p <;> rfl
  rw [heldTally, heldTally, waitingTally, Tally.add_comm_of_leaves hleaves, add_assoc]

/-- Applying an operation takes its operands, as many as it has, and nothing else. -/
theorem ofNodes_of_applyTop {op : Op} {span : Span} (h : applyTop op span nodes = .ok nodes') :
    Tally.ofNodes nodes'.reverse = .ofNodes nodes.reverse + .operation := by
  unfold applyTop at h
  split at h
  · next harity =>
    cases h
    have hlength : (nodes.take op.arity).reverse.length = op.arity := by
      rw [List.length_reverse, List.length_take]
      omega
    have hsplit : nodes.reverse = (nodes.drop op.arity).reverse ++ (nodes.take op.arity).reverse := by
      rw [← List.reverse_append, List.take_append_drop]
    rw [List.reverse_cons, Tally.ofNodes_append, Tally.ofNodes_apply hlength, hsplit,
      Tally.ofNodes_append, add_assoc]
  · cases h

/-- To apply an operator is to move it from what waits to the expressions: nothing is lost and
nothing is added. -/
theorem heldTally_of_reduce (h : reduce nodes p = .ok nodes') (pending : List Pending) :
    heldTally nodes' pending = heldTally nodes (p :: pending) := by
  rw [heldTally, heldTally, waitingTally, ← add_assoc]
  cases p with
  | operator b span =>
    rw [ofNodes_of_applyTop h]
    rfl
  | otherwise span =>
    rw [ofNodes_of_applyTop h]
    rfl
  | paren span => cases h
  | question span => cases h

/-- The same of any run of operators that are applied. -/
theorem heldTally_of_reduceYielding {incoming : Binding}
    (h : reduceYielding incoming nodes pending = .ok (nodes', pending')) :
    heldTally nodes' pending' = heldTally nodes pending := by
  induction pending generalizing nodes with
  | nil =>
    cases h
    rfl
  | cons p ps ih =>
    rw [reduceYielding] at h
    split at h
    · split at h
      · rcases bind_eq_ok_iff.1 h with ⟨between, hreduce, hrest⟩
        rw [ih hrest, heldTally_of_reduce hreduce]
      · cases h
        rfl
    · cases h
      rfl

theorem heldTally_of_reduceToParen {close : Span}
    (h : reduceToParen close nodes pending = .ok (nodes', pending')) :
    heldTally nodes' pending' = heldTally nodes pending := by
  fun_induction reduceToParen close nodes pending with
  | case1 => cases h
  | case2 nodes span ps =>
    cases h
    rw [heldTally_wait]
    exact (add_zero _).symm
  | case3 nodes p ps _ ih =>
    rcases bind_eq_ok_iff.1 h with ⟨between, hreduce, hrest⟩
    rw [ih between hrest, heldTally_of_reduce hreduce]

theorem heldTally_of_reduceToQuestion {colon : Span}
    (h : reduceToQuestion colon nodes pending = .ok (nodes', pending')) :
    heldTally nodes' pending' = heldTally nodes pending := by
  fun_induction reduceToQuestion colon nodes pending with
  | case1 => cases h
  | case2 => cases h
  | case3 nodes span ps =>
    cases h
    rfl
  | case4 nodes p ps _ _ ih =>
    rcases bind_eq_ok_iff.1 h with ⟨between, hreduce, hrest⟩
    rw [ih between hrest, heldTally_of_reduce hreduce]

theorem heldTally_of_reduceAll (h : reduceAll nodes pending = .ok nodes') :
    Tally.ofNodes nodes'.reverse = heldTally nodes pending := by
  induction pending generalizing nodes with
  | nil =>
    cases h
    exact (add_zero _).symm
  | cons p ps ih =>
    rw [reduceAll] at h
    rcases bind_eq_ok_iff.1 h with ⟨between, hreduce, hrest⟩
    rw [ih hrest, heldTally_of_reduce hreduce]

end

/-! ## One token -/

/-- What a value stands for is a leaf. -/
theorem isLeaf_of_valueNode {t : Token} {n : Node} (h : valueNode t = .ok n) : n.isLeaf = true := by
  unfold valueNode at h
  split at h
  · split at h <;> cases h
    rfl
  · split at h <;> cases h
    rfl
  · cases h
    rfl
  · cases h
    rfl
  · cases h
    split
    · rfl
    · rfl

/-- The tally of what a slot holds. -/
def Slot.tally (slot : Slot) : Tally := heldTally slot.nodes slot.pending

/-- A token that makes an operation reads as one in either position. -/
theorem exists_binding_of_slot {slot : Slot} {kind : TokenKind} {b : Binding}
    (h : slot.binding? kind = some b) : ∃ b', kind.binding? = some b' := by
  unfold Slot.binding? at h
  split at h
  · cases kind <;> first | exact ⟨_, rfl⟩ | cases h
  · exact ⟨b, by simpa using h⟩

/-- What a token adds to a slot is what it stands for, and an identifier is on top. -/
structure Added (t : Token) (slot slot' : Slot) : Prop where
  tally : slot'.tally = slot.tally + .ofTokens [t]
  last : slot'.last? = some t
  top : t.kind = .identifier → ∃ n older, slot'.nodes = n :: older ∧ valueNode t = .ok n

/-- A token that is read in a slot adds just what it counts for. -/
theorem added_of_read {t : Token} {slot slot' : Slot} (h : slot.read t = .ok slot') :
    Added t slot slot' := by
  -- One case for each kind of token: the opening and the closing parenthesis, `?`, `:`, a value and
  -- an operator.  Reducing moves operations from the waiting ones to the nodes, so it leaves the sum
  -- as it is.
  unfold Slot.read at h
  split at h
  · next hkind =>
    cases h
    refine ⟨?_, rfl, by simp [hkind]⟩
    rw [Tally.ofTokens_silent (by simp [hkind]), Slot.tally, heldTally_wait]
    rfl
  · next hkind =>
    rcases bind_eq_ok_iff.1 h with ⟨⟨nodes, pending⟩, hreduce, h⟩
    cases h
    refine ⟨?_, rfl, by simp [hkind]⟩
    rw [Tally.ofTokens_silent (by simp [hkind]), add_zero]
    exact heldTally_of_reduceToParen hreduce
  · next hkind =>
    rcases bind_eq_ok_iff.1 h with ⟨⟨nodes, pending⟩, hreduce, h⟩
    cases h
    refine ⟨?_, rfl, by simp [hkind]⟩
    rw [Tally.ofTokens_question hkind, Slot.tally, heldTally_wait,
      heldTally_of_reduceYielding hreduce]
    rfl
  · next hkind =>
    rcases bind_eq_ok_iff.1 h with ⟨⟨nodes, pending⟩, hreduce, h⟩
    cases h
    refine ⟨?_, rfl, by simp [hkind]⟩
    rw [Tally.ofTokens_silent (by simp [hkind]), add_zero]
    exact heldTally_of_reduceToQuestion hreduce
  · split at h
    · next hvalue =>
      rcases bind_eq_ok_iff.1 h with ⟨n, hn, h⟩
      cases h
      refine ⟨?_, rfl, fun _ => ⟨n, slot.nodes, rfl, hn⟩⟩
      rw [Tally.ofTokens_value hvalue, hn, Slot.tally, heldTally_cons,
        Tally.ofNodes_leaf (isLeaf_of_valueNode hn)]
      rfl
    · next hvalue =>
      have htop : t.kind = .identifier → ∃ n older, slot'.nodes = n :: older ∧
          valueNode t = .ok n := by
        intro hkind
        rw [hkind] at hvalue
        exact absurd rfl hvalue
      split at h
      · cases h
      · next b hb =>
        rcases exists_binding_of_slot hb with ⟨b', hb'⟩
        have htoken := Tally.ofTokens_operator hb'
        split at h
        · cases h
          refine ⟨?_, rfl, htop⟩
          rw [htoken, Slot.tally, heldTally_wait]
          rfl
        · rcases bind_eq_ok_iff.1 h with ⟨⟨nodes, pending⟩, hreduce, h⟩
          cases h
          refine ⟨?_, rfl, htop⟩
          rw [htoken, Slot.tally, heldTally_wait, heldTally_of_reduceYielding hreduce]
          rfl

/-- A slot that is finished held the one expression that comes of it. -/
theorem tally_of_finish {slot : Slot} {place : Span} {n : Node} (h : slot.finish place = .ok n) :
    slot.tally = .ofNodes [n] := by
  rcases bind_eq_ok_iff.1 h with ⟨nodes, hreduce, h⟩
  rw [Slot.tally, ← heldTally_of_reduceAll hreduce]
  match nodes, h with
  | [node], h =>
    cases h
    rfl

/-! ## Brackets -/

/-- What stands around the innermost slot, each bracket counted as the list or object that it will
be. -/
def outsideTally : List Frame → Tally
  | [] => 0
  | f :: fs =>
    outsideTally fs + f.outer.tally + .bracket f.opening.kind + .ofNodes f.items.reverse

/-- What the token before has left in the slot. -/
inductive EndsIn (tokens : List Token) : Slot → Prop
  /-- Nothing has been read into the slot. -/
  | fresh (h : ∀ t, tokens.getLast? = some t → t.kind ≠ .identifier) : EndsIn tokens .empty
  /-- The token was read into the slot; if it is an identifier, its expression is on top. -/
  | read {slot : Slot} {u : List Token} {t : Token} (htokens : tokens = u ++ [t])
      (hlast : slot.last? = some t)
      (htop : t.kind = .identifier → ∃ n older, slot.nodes = n :: older ∧ valueNode t = .ok n) :
      EndsIn tokens slot

/-- The parser holds what the tokens read so far stand for. -/
structure Accounted (tokens : List Token) (slot : Slot) (frames : List Frame) : Prop where
  tally : Tally.ofTokens tokens = outsideTally frames + slot.tally
  endsIn : EndsIn tokens slot

section

variable {tokens : List Token} {slot slot' : Slot} {frames : List Frame} {f : Frame} {t : Token}

/-- A bracket that is closed counts for its opening token and for what is inside. -/
theorem ofNodes_node (f : Frame) (items : List Node) :
    Tally.ofNodes [f.node items] = .bracket f.opening.kind + .ofNodes items.reverse := by
  unfold Frame.node
  split
  · next hkind => rw [Tally.ofNodes_list, hkind]
  · next hkind =>
    rw [Tally.ofNodes_construct]
    simp only [Tally.bracket, hkind]
    rfl

/-- Around a bracket nothing changes, but the identifier right before it is no leaf any more. -/
theorem outsideTally_ofToken (h : Accounted tokens slot frames) (ht : opensFrame t.kind = true) :
    outsideTally (Frame.ofToken slot t :: frames) = .ofTokens (tokens ++ [t]) := by
  have hnone : Tally.ofNodes ([] : List Node).reverse = 0 := rfl
  cases h.endsIn with
  | fresh hlast =>
    rw [Tally.ofTokens_bracket ht hlast, h.tally]
    simp only [Frame.ofToken, Slot.empty, outsideTally, hnone, add_zero]
  | @read _ u i htokens hlast htop =>
    by_cases hi : i.kind = .identifier
    · rcases htop hi with ⟨n, older, hnodes, hn⟩
      -- The identifier was counted as a leaf, in the tokens and in the slot.
      have hbefore : Tally.ofTokens u = outsideTally frames + heldTally older slot.pending := by
        have htally := h.tally
        rw [htokens, Tally.ofTokens_append (opensFrame_identifier hi), Slot.tally, hnodes,
          heldTally_cons, ← add_assoc, Tally.ofNodes_leaf (isLeaf_of_valueNode hn),
          Tally.ofTokens_value (by rw [hi]; rfl), hn] at htally
        exact add_right_cancel htally
      have hsplit : tokens ++ [t] = u ++ [i, t] := by simp [htokens]
      rw [hsplit, Tally.ofTokens_tag ht hi, hbefore]
      simp only [Frame.ofToken, hlast, hi, if_true, outsideTally, hnone, add_zero, Slot.tally,
        hnodes, List.drop_succ_cons, List.drop_zero]
    · have hlast' : ∀ a, tokens.getLast? = some a → a.kind ≠ .identifier := by
        rintro a ha
        rw [htokens, List.getLast?_concat] at ha
        cases ha
        exact hi
      rw [Tally.ofTokens_bracket ht hlast', h.tally]
      simp only [Frame.ofToken, hlast, hi, if_false, outsideTally, hnone, add_zero]

/-! ## What each token does -/

/-- A bracket that opens takes the name before it away from the leaves. -/
theorem Accounted.open (h : Accounted tokens slot frames) (ht : opensFrame t.kind = true) :
    Accounted (tokens ++ [t]) .empty (Frame.ofToken slot t :: frames) := by
  constructor
  · rw [outsideTally_ofToken h ht]
    exact (add_zero _).symm
  · refine .fresh fun a ha hkind => ?_
    rw [List.getLast?_concat] at ha
    cases ha
    rw [opensFrame_identifier hkind] at ht
    cases ht

/-- A token that opens nothing is added to the account. -/
theorem Accounted.read (h : Accounted tokens slot frames) (ht : opensFrame t.kind = false)
    (hread : slot.read t = .ok slot') : Accounted (tokens ++ [t]) slot' frames := by
  rcases added_of_read hread with ⟨htally, hlast, htop⟩
  constructor
  · rw [Tally.ofTokens_append ht, h.tally, htally, add_assoc]
  · exact .read rfl hlast htop

/-- A comma inside brackets finishes one item. -/
theorem Accounted.comma {n : Node} {place : Span} (h : Accounted tokens slot (f :: frames))
    (ht : t.kind = .comma) (hfinish : slot.finish place = .ok n) :
    Accounted (tokens ++ [t]) .empty ({ f with items := n :: f.items } :: frames) := by
  have hopen : opensFrame t.kind = false := by rw [ht]; rfl
  constructor
  · rw [Tally.ofTokens_append hopen, Tally.ofTokens_silent (by simp [ht]), h.tally,
      tally_of_finish hfinish]
    simp only [outsideTally, List.reverse_cons, Tally.ofNodes_append, add_assoc]
    rfl
  · refine .fresh fun a ha hkind => ?_
    rw [List.getLast?_concat] at ha
    cases ha
    rw [ht] at hkind
    cases hkind

/-- The last item in brackets may be left out. -/
theorem ofNodes_of_close {items : List Node} {place : Span} (h : EndsIn tokens slot)
    (hclose : f.close slot place = .ok items) :
    Tally.ofNodes items.reverse = .ofNodes f.items.reverse + slot.tally := by
  unfold Frame.close at hclose
  split at hclose
  · rcases bind_eq_ok_iff.1 hclose with ⟨n, hfinish, hitems⟩
    cases hitems
    rw [List.reverse_cons, Tally.ofNodes_append, tally_of_finish hfinish]
  · next hstarted =>
    cases hclose
    cases h with
    | fresh _ => exact (add_zero _).symm
    | read _ hlast _ => simp [Slot.isStarted, hlast] at hstarted

/-- A closing bracket makes a list or an object of the items. -/
theorem Accounted.close {items : List Node} {place : Span}
    (h : Accounted tokens slot (f :: frames)) (ht : t.kind.closesList = true)
    (hclose : f.close slot place = .ok items) :
    Accounted (tokens ++ [t]) (f.resume items t) frames := by
  have hkinds : t.kind = .closeBracket ∨ t.kind = .closeBrace ∨ t.kind = .arrow := by
    simpa [TokenKind.closesList, or_assoc] using ht
  have hopen : opensFrame t.kind = false := by
    rcases hkinds with hkind | hkind | hkind <;> rw [hkind] <;> rfl
  have hsilent : Tally.ofTokens [t] = 0 :=
    Tally.ofTokens_silent (by rcases hkinds with hkind | hkind | hkind <;> simp [hkind])
  have hresume : (f.resume items t).tally
      = f.outer.tally + (.bracket f.opening.kind + .ofNodes items.reverse) := by
    rw [← ofNodes_node]
    exact heldTally_cons _ _ _
  constructor
  · rw [Tally.ofTokens_append hopen, hsilent, h.tally, add_zero, hresume,
      ofNodes_of_close h.endsIn hclose]
    simp only [outsideTally, add_assoc]
  · refine .read rfl rfl fun hident => ?_
    rcases hkinds with hkind | hkind | hkind <;> rw [hkind] at hident <;> cases hident

/-! ## Reading -/

/-- Nothing has been read, and nothing is there. -/
theorem accounted_empty : Accounted [] .empty [] := ⟨rfl, .fresh (by simp)⟩

/-- As far as an expression is read, the parser holds what the tokens stand for. -/
theorem accounted_of_scan {stop : Span} {rest : List Token} {before : List Token}
    (h : Accounted before slot frames) (hscan : scan stop slot frames tokens = .ok (slot', rest)) :
    ∃ used, tokens = used ++ rest ∧ Accounted (before ++ used) slot' [] := by
  -- The invariant is that the slots of all open brackets together account for the tokens before.
  fun_induction scan stop slot frames tokens generalizing before with
  | case1 slot =>
    cases hscan
    exact ⟨[], rfl, by simpa using h⟩
  | case2 slot f fs =>
    rcases bind_eq_ok_iff.1 hscan with ⟨_, _, hunclosed⟩
    cases hunclosed
  | case3 slot frames t ts hopen ih =>
    rcases ih (h.open hopen) hscan with ⟨used, rfl, hused⟩
    exact ⟨t :: used, rfl, by simpa using hused⟩
  | case4 slot t ts hopen hcomma =>
    cases hscan
    exact ⟨[], rfl, by simpa using h⟩
  | case5 slot t ts hopen hcomma f fs ih =>
    rcases bind_eq_ok_iff.1 hscan with ⟨n, hfinish, hrest⟩
    rcases ih n (h.comma hcomma hfinish) hrest with ⟨used, rfl, hused⟩
    exact ⟨t :: used, rfl, by simpa using hused⟩
  | case6 slot t ts hopen hcomma hcloses =>
    cases hscan
    exact ⟨[], rfl, by simpa using h⟩
  | case7 slot t ts hopen hcomma hcloses f fs ih =>
    rcases bind_eq_ok_iff.1 hscan with ⟨items, hclose, hrest⟩
    split at hrest
    · rcases ih items (h.close hcloses hclose) hrest with ⟨used, rfl, hused⟩
      exact ⟨t :: used, rfl, by simpa using hused⟩
    · cases hrest
  | case8 slot frames t ts hopen hcomma hcloses ih =>
    rcases bind_eq_ok_iff.1 hscan with ⟨next, hread, hrest⟩
    rcases ih next (h.read (by simpa using hopen) hread) hrest with
      ⟨used, rfl, hused⟩
    exact ⟨t :: used, rfl, by simpa using hused⟩

/-- The tokens that were used up for a finished slot, with what comes after them. -/
theorem ofTokens_of_finish {used v : List Token} {n : Node} {place : Span}
    (h : Accounted used slot []) (hfinish : slot.finish place = .ok n)
    (hv : ∀ t, v.head? = some t → opensFrame t.kind = false) :
    Tally.ofTokens (used ++ v) = .ofNodes [n] + .ofTokens v := by
  have hused : Tally.ofTokens used = .ofNodes [n] := by
    rw [h.tally, ← tally_of_finish hfinish]
    exact zero_add _
  cases v with
  | nil =>
    rw [List.append_nil, hused]
    exact (add_zero _).symm
  | cons t v => rw [Tally.ofTokens_append (hv t rfl), hused]

/-- An expression is made of the tokens that are used up for it, whatever comes after them. -/
theorem ofTokens_of_parseExpression {rest : List Token} {n : Node}
    (h : parseExpression tokens = (.ok (some n), rest)) :
    ∃ used, tokens = used ++ rest ∧
      ∀ v, v <+: rest → Tally.ofTokens (used ++ v) = .ofNodes [n] + .ofTokens v := by
  rcases exists_scan_of_parseExpression h with ⟨slot, unread, place, hscan, hfinish, hunread⟩
  rcases accounted_of_scan accounted_empty hscan with ⟨used, hused, haccounted⟩
  -- An identifier at the end is no tag of what follows, for no bracket can follow there.
  have hbehind : ∀ v, v <+: unread →
      Tally.ofTokens (used ++ v) = .ofNodes [n] + .ofTokens v := by
    intro v hv
    refine ofTokens_of_finish haccounted hfinish fun a ha => ?_
    have hends := endsExpression_of_scan hscan
    cases v with
    | nil => cases ha
    | cons b v =>
      cases ha
      rcases hv with ⟨w, rfl⟩
      revert hends
      simp only [endsExpression, List.cons_append]
      cases a.kind <;> decide
  rcases hunread with rfl | ⟨c, hc, rfl⟩
  · exact ⟨used, hused, hbehind⟩
  · refine ⟨used ++ [c], by rw [hused, List.append_assoc, List.singleton_append], ?_⟩
    intro v hv
    rw [List.append_assoc, List.singleton_append,
      hbehind (c :: v) (List.cons_prefix_cons.mpr ⟨rfl, hv⟩), Tally.ofTokens_comma_cons hc]

/-- Expressions are made of the tokens that are used up for them. -/
theorem ofTokens_of_parseParameters {rest : List Token} {ns : List Node}
    (h : parseParameters tokens = .ok (ns, rest)) :
    ∃ used, tokens = used ++ rest ∧ Tally.ofTokens used = .ofNodes ns := by
  fun_induction parseParameters tokens generalizing ns rest with
  | case1 tokens e _ hread => cases h
  | case2 tokens rest' hread =>
    cases h
    exact ⟨[], (eq_of_parseExpression_none hread).1.symm, rfl⟩
  | case3 tokens n between hread ih =>
    rcases bind_eq_ok_iff.1 h with ⟨⟨ns', rest'⟩, hrest, h⟩
    cases h
    rcases ih hrest with ⟨others, hbetween, hothers⟩
    rcases ofTokens_of_parseExpression hread with ⟨used, htokens, hused⟩
    refine ⟨used ++ others, by rw [htokens, hbetween, List.append_assoc], ?_⟩
    have hfront : others <+: between := by
      rw [hbetween]
      exact List.prefix_append others _
    rw [hused others hfront, hothers, ← Tally.ofNodes_append]
    rfl

end

/-! ## The whole -/

/-- Expressions have exactly what tokens stand for. -/
structure Accounts (tokens : List Token) (nodes : List Node) : Prop where
  /-- Every operation has as many operands as it takes. -/
  arity : ∀ op operands, .apply op operands ∈ Node.allSubtrees nodes → operands.length = op.arity
  /-- The leaves are the values among the tokens, but for the tags of brackets. -/
  leaves : ((Node.allSubtrees nodes).filter Node.isLeaf).map .ok
    = (operandTokens tokens).map valueNode
  /-- There is an operation for each operator and each `?`. -/
  operations : (Node.allSubtrees nodes).countP Node.isOperation
    = tokens.countP (·.kind.binding?.isSome) + tokens.countP (·.kind = .question)
  /-- There is a list for each opening bracket. -/
  lists : (Node.allSubtrees nodes).countP Node.isList = tokens.countP (·.kind = .openBracket)
  /-- There is a new object for each opening brace. -/
  constructs : (Node.allSubtrees nodes).countP Node.isConstruct
    = tokens.countP (·.kind = .openBrace)

/-- Equal tallies are all that the statement about accounts asks for. -/
theorem accounts_of_tally {tokens : List Token} {nodes : List Node}
    (h : Tally.ofTokens tokens = .ofNodes nodes) : Accounts tokens nodes where
  arity op operands hmem := by
    have hnone : (Node.allSubtrees nodes).countP Node.isMisapplied = 0 :=
      (congrArg Tally.misapplied h).symm
    simpa [Node.isMisapplied] using List.countP_eq_zero.mp hnone _ hmem
  leaves := (congrArg Tally.leaves h).symm
  operations := (congrArg Tally.operations h).symm
  lists := (congrArg Tally.lists h).symm
  constructs := (congrArg Tally.constructs h).symm

/-- No token is lost, doubled or moved by reading a list of expressions, in whatever order the
tokens come. -/
theorem accounts_of_parseParameterList {tokens : List Token} {nodes : List Node}
    (h : parseParameterList tokens = .ok nodes) : Accounts tokens nodes := by
  rcases bind_eq_ok_iff.1 h with ⟨⟨ns, rest⟩, hparameters, h⟩
  rcases bind_eq_ok_iff.1 h with ⟨_, hend, h⟩
  cases h
  cases rest with
  | cons t ts => cases hend
  | nil =>
    rcases ofTokens_of_parseParameters hparameters with ⟨used, htokens, htally⟩
    rw [List.append_nil] at htokens
    rw [← htokens] at htally
    exact accounts_of_tally htally

/-- `1 2 +, x[!a]` is a sum and a list: `x` is no leaf, and each operator and bracket is found. -/
theorem accounts_of_parseParameterList_sum_and_list :
    let tokens : List Token := [⟨.int, some "1", .origin⟩, ⟨.int, some "2", .origin⟩,
      ⟨.add, none, .origin⟩, ⟨.comma, none, .origin⟩, ⟨.identifier, some "x", .origin⟩,
      ⟨.openBracket, none, .origin⟩, ⟨.not, none, .origin⟩, ⟨.identifier, some "a", .origin⟩,
      ⟨.closeBracket, none, .origin⟩]
    let nodes : List Node := [.apply .add [.int 1, .int 2],
      .list (Kind.ofTag "x") [.apply .not [.ident "a"]]]
    parseParameterList tokens = .ok nodes ∧ Accounts tokens nodes := by
  intro tokens nodes
  have hsecond : parseExpression (tokens.drop 4)
      = (.ok (some (.list (Kind.ofTag "x") [.apply .not [.ident "a"]])), []) := rfl
  have hfirst : parseExpression tokens
      = (.ok (some (.apply .add [.int 1, .int 2])), tokens.drop 4) := rfl
  have hparse : parseParameterList tokens = .ok nodes := by
    rw [parseParameterList, parseParameters_of_some hfirst, parseParameters_of_some hsecond,
      parseParameters]
    rfl
  exact ⟨hparse, accounts_of_parseParameterList hparse⟩

end Parser

end Edict
