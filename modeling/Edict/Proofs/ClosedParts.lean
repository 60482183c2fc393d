import Edict.Proofs.ClosedExpressions
import Edict.Proofs.Parsed

namespace Edict

/-! # Which expressions can be folded

An operation in a tree can be folded away if it is closed and has a value on its own, and it is
folded away even where evaluating the tree would have passed it by.  So a tree can be folded if all
its closed operations have values, and what becomes of it is the tree with the outermost of them
replaced.

Main statements:

* `perform_fold`: folding fails as the first closed operation that fails, and otherwise replaces the
  closed operations that no other is around by their values;
* `fold_closed_parts`: the same for what folding results in and for what it fails with, each on its
  own.
-/

open EvalM

/-! ## Closed operations -/

namespace Node

/-- Whether the expression is an operation without such parts. -/
def isClosedOperation (n : Node) : Bool := n.isOperation && n.isClosed

/-- The closed operations in the tree, each behind its own parts. -/
def closedOperations (n : Node) : List Node := n.postorder.filter isClosedOperation

/-- The closed operations in the trees, one tree after the other. -/
def allClosedOperations (ns : List Node) : List Node := (allPostorder ns).filter isClosedOperation

mutual

/-- The tree with every closed operation replaced that no other closed operation is around. -/
def mapClosed (f : Node → Node) : Node → Node
  | apply op operands =>
    if (apply op operands).isClosed then f (apply op operands)
    else apply op (mapAllClosed f operands)
  | list element items => list element (mapAllClosed f items)
  | construct typeName fields => construct typeName (mapAllClosed f fields)
  | n => n

def mapAllClosed (f : Node → Node) : List Node → List Node
  | [] => []
  | n :: ns => n.mapClosed f :: mapAllClosed f ns

end

/-- The closed operations of a tree are its subtrees that are operations and closed. -/
theorem mem_closedOperations {n part : Node} :
    part ∈ n.closedOperations ↔
      part ∈ n.subtrees ∧ part.isOperation = true ∧ part.isClosed = true := by
  rw [closedOperations, List.mem_filter, n.postorder_perm_subtrees.mem_iff, isClosedOperation,
    Bool.and_eq_true]

/-- In post-order, those of the parts come first. -/
theorem closedOperations_of_parts {n : Node} {parts : List Node}
    (hparts : n.postorder = allPostorder parts ++ [n]) :
    n.closedOperations
      = allClosedOperations parts ++ if n.isClosedOperation then [n] else [] := by
  rw [closedOperations, hparts, List.filter_append, List.filter_cons, List.filter_nil,
    allClosedOperations]

theorem allClosedOperations_cons (n : Node) (ns : List Node) :
    allClosedOperations (n :: ns) = n.closedOperations ++ allClosedOperations ns := by
  rw [allClosedOperations, allPostorder, List.filter_append]
  rfl

/-- The closed operations of several trees are those of each. -/
theorem mem_allClosedOperations {part : Node} {ns : List Node} :
    part ∈ allClosedOperations ns ↔ ∃ n ∈ ns, part ∈ n.closedOperations := by
  induction ns with
  | nil => simp [allClosedOperations, allPostorder]
  | cons n ns ih => rw [allClosedOperations_cons, List.mem_append, ih]; simp

section

variable {n : Node} (happly : ∀ op operands, n ≠ apply op operands)
  (hlist : ∀ element items, n ≠ list element items)
  (hconstruct : ∀ typeName fields, n ≠ construct typeName fields)

include happly hlist hconstruct

theorem mapClosed_leaf (f : Node → Node) : n.mapClosed f = n := by
  rw [mapClosed] <;> assumption

/-- A leaf has no closed operations and is left as it is. -/
theorem closedOperations_leaf : n.closedOperations = [] := by
  have hoperation : n.isOperation = false := by
    cases n with
    | apply op operands => exact (happly op operands rfl).elim
    | _ => rfl
  rw [closedOperations, postorder_leaf happly hlist hconstruct, List.filter_cons, List.filter_nil,
    isClosedOperation, hoperation]
  rfl

end

theorem mapClosed_of_literal? {n : Node} {v : Value} (h : n.literal? = some v) (f : Node → Node) :
    n.mapClosed f = n := by
  cases n <;> cases h <;> exact mapClosed_leaf (by simp) (by simp) (by simp) f

theorem closedOperations_of_literal? {n : Node} {v : Value} (h : n.literal? = some v) :
    n.closedOperations = [] := by
  cases n <;> cases h <;> exact closedOperations_leaf (by simp) (by simp) (by simp)

/-- Nothing becomes a literal that is not closed. -/
theorem isLiteral_mapClosed_of_not_isClosed {n : Node} (h : n.isClosed = false) (f : Node → Node) :
    (n.mapClosed f).isLiteral = false := by
  cases n with
  | apply op operands =>
    rw [mapClosed, h]
    rfl
  | ident name => rw [mapClosed] <;> simp [isLiteral]
  | list element items => rw [mapClosed]; rfl
  | construct typeName fields => rw [mapClosed]; rfl
  | _ => rw [isClosed_of_literal? rfl] at h; cases h

/-- So an operation that is not closed does not become one on literals. -/
theorem all_isLiteral_of_not_isClosed {op : Op} {operands : List Node} {f : Node → Node}
    (h : (apply op operands).isClosed = false) :
    (operands.map (mapClosed f)).all isLiteral = false := by
  rw [isClosed_apply] at h
  rcases List.all_eq_false.mp h with ⟨part, hpart, hopen⟩
  refine List.all_eq_false.mpr ⟨_, List.mem_map_of_mem hpart, ?_⟩
  rw [isLiteral_mapClosed_of_not_isClosed (by simpa using hopen)]
  exact Bool.false_ne_true

/-- Several trees are changed one by one. -/
theorem mapAllClosed_eq_map (f : Node → Node) (ns : List Node) :
    mapAllClosed f ns = ns.map (mapClosed f) := by
  induction ns with
  | nil => rfl
  | cons n ns ih => rw [mapAllClosed, ih, List.map_cons]

end Node

/-! ## Faults -/

/-- The error of a failure. -/
def faultOf : Except EvalError Value → Option EvalError
  | .error e => some e
  | .ok _ => none

/-- The fault of an outcome is its error. -/
theorem faultOf_eq_some_iff {outcome : Except EvalError Value} {e : EvalError} :
    faultOf outcome = some e ↔ outcome = .error e := by
  cases outcome <;> simp [faultOf]

theorem faultOf_eq_none_iff {outcome : Except EvalError Value} :
    faultOf outcome = none ↔ ∃ v, outcome = .ok v := by
  cases outcome <;> simp [faultOf]

/-- The fault, if there is one, and otherwise the result. -/
def unlessFault {α : Type} (fault : Option EvalError) (a : α) : Except EvalError α :=
  match fault with
  | some e => .error e
  | none => .ok a

/-- With a fault there is no result but the fault. -/
theorem unlessFault_eq_error_iff {α : Type} {fault : Option EvalError} {a : α} {e : EvalError} :
    unlessFault fault a = .error e ↔ fault = some e := by
  cases fault <;> simp [unlessFault]

section

variable {σ : Type} {scope : Scope σ} {m : Machine σ}

/-- The error of the first of the expressions that fails on its own. -/
def firstFault (scope : Scope σ) (m : Machine σ) (ns : List Node) : Option EvalError :=
  ns.findSome? fun n => faultOf (n.outcome scope m)

/-- There is no fault if all operations have values. -/
theorem firstFault_eq_none_iff {ns : List Node} :
    firstFault scope m ns = none ↔ ∀ n ∈ ns, ∃ v, n.outcome scope m = .ok v := by
  simp only [firstFault, List.findSome?_eq_none_iff, faultOf_eq_none_iff]

/-- The first fault is that of an operation before which all have values. -/
theorem firstFault_eq_some_iff {ns : List Node} {e : EvalError} :
    firstFault scope m ns = some e ↔ ∃ before n after, ns = before ++ n :: after ∧
      (∀ k ∈ before, ∃ v, k.outcome scope m = .ok v) ∧ n.outcome scope m = .error e := by
  simp only [firstFault, List.findSome?_eq_some_iff, faultOf_eq_none_iff, faultOf_eq_some_iff]
  constructor
  · rintro ⟨before, n, after, hns, hn, hbefore⟩
    exact ⟨before, n, after, hns, hbefore, hn⟩
  · rintro ⟨before, n, after, hns, hbefore, hn⟩
    exact ⟨before, n, after, hns, hn, hbefore⟩

/-- There is a first fault if there is a fault. -/
theorem exists_firstFault_iff {ns : List Node} :
    (∃ e, firstFault scope m ns = some e) ↔ ∃ n ∈ ns, ∃ e, n.outcome scope m = .error e := by
  simp only [← Option.isSome_iff_exists, firstFault, List.findSome?_isSome_iff]
  simp only [Option.isSome_iff_exists, faultOf_eq_some_iff]

/-- The first fault of two lists is that of the first list, if it has one. -/
theorem firstFault_append (ns ms : List Node) :
    firstFault scope m (ns ++ ms) = (firstFault scope m ns).or (firstFault scope m ms) :=
  List.findSome?_append

theorem firstFault_singleton (n : Node) :
    firstFault scope m [n] = faultOf (n.outcome scope m) := by
  rw [firstFault, List.findSome?_singleton]

/-- Where no part of several trees fails, none fails in any of them. -/
theorem firstFault_of_parts {n : Node} {ns : List Node}
    (h : firstFault scope m (Node.allClosedOperations ns) = none) (hn : n ∈ ns) :
    firstFault scope m n.closedOperations = none := by
  rw [firstFault_eq_none_iff] at h ⊢
  exact fun part hpart => h part (Node.mem_allClosedOperations.mpr ⟨n, hn, hpart⟩)

/-! ## What closed operations are replaced by -/

/-- The literal of what the expression has for a value on its own. -/
def Node.constant (scope : Scope σ) (m : Machine σ) (n : Node) : Node :=
  match n.outcome scope m with
  | .ok v => (Node.ofValue? v).getD n
  | .error _ => n

/-- The value of a closed expression has a literal. -/
theorem ofValue?_constant (hroom : m.stack.HasRoom) {n : Node} {v : Value}
    (hclosed : n.isClosed = true) (hfree : n.ObjectFree) (hvalue : n.outcome scope m = .ok v) :
    Node.ofValue? v = some (n.constant scope m) := by
  have hplain := (means_outcome scope hroom n hclosed hfree).plain hvalue
  have hliteral : ∃ literal, Node.ofValue? v = some literal := by
    cases v <;> first | exact ⟨_, rfl⟩ | cases hplain
  rcases hliteral with ⟨literal, hliteral⟩
  rw [Node.constant, hvalue]
  dsimp only
  rw [hliteral, Option.getD_some]

/-- What a closed expression without faults is folded to: a literal that means the same. -/
theorem exists_literal_of_closed (hroom : m.stack.HasRoom) {n : Node} (hclosed : n.isClosed = true)
    (hfree : n.ObjectFree) (hfault : firstFault scope m n.closedOperations = none) :
    ∃ v, n.outcome scope m = .ok v ∧ v.isPlain = true ∧
      (n.mapClosed (Node.constant scope m)).literal? = some v := by
  have hmeans := means_outcome scope hroom n hclosed hfree
  rcases Node.cases_of_isClosed hclosed with ⟨v, hv⟩ | ⟨op, operands, rfl⟩
  · have hplain := hfree.isPlain hv
    rw [Node.mapClosed_of_literal? hv]
    exact ⟨v, (Node.means_of_literal? hv hplain).outcome_eq hroom, hplain, hv⟩
  · have hmem : Node.apply op operands ∈ (Node.apply op operands).closedOperations :=
      Node.mem_closedOperations.mpr ⟨Node.mem_subtrees_self _, rfl, hclosed⟩
    rcases firstFault_eq_none_iff.mp hfault _ hmem with ⟨v, hv⟩
    refine ⟨v, hv, hmeans.plain hv, ?_⟩
    rw [Node.mapClosed, if_pos hclosed]
    exact Node.literal?_of_ofValue? (ofValue?_constant hroom hclosed hfree hv)

/-! ## Folding -/

/-- With its operands folded, a closed operation is one on literals and has the outcome that it has
without. -/
theorem means_apply_folded (hroom : m.stack.HasRoom) {op : Op} {operands : List Node}
    (hclosed : (Node.apply op operands).isClosed = true)
    (hfree : (Node.apply op operands).ObjectFree)
    (hfault : firstFault scope m (Node.allClosedOperations operands) = none) :
    (operands.map (Node.mapClosed (Node.constant scope m))).all Node.isLiteral = true ∧
      (Node.apply op (operands.map (Node.mapClosed (Node.constant scope m)))).Means
        ((Node.apply op operands).outcome scope m) := by
  rw [Node.isClosed_apply] at hclosed
  -- Operand by operand: what it is folded to is a literal, closed, and means the same.
  have hfolded : ∀ n ∈ operands, ∃ v, n.outcome scope m = .ok v ∧ v.isPlain = true ∧
      (n.mapClosed (Node.constant scope m)).literal? = some v := fun n hn =>
    exists_literal_of_closed hroom (List.all_eq_true.mp hclosed n hn)
      (hfree.of_mem (Node.subtrees_apply op operands) hn) (firstFault_of_parts hfault hn)
  have hmeans : ∀ n ∈ operands, n.Means (n.outcome scope m) := fun n hn =>
    means_outcome scope hroom n (List.all_eq_true.mp hclosed n hn)
      (hfree.of_mem (Node.subtrees_apply op operands) hn)
  have hmeans' : ∀ n ∈ operands,
      (n.mapClosed (Node.constant scope m)).Means (n.outcome scope m) := by
    intro n hn
    rcases hfolded n hn with ⟨v, hv, hplain, hliteral⟩
    rw [hv]
    exact Node.means_of_literal? hliteral hplain
  have hliterals : (operands.map (Node.mapClosed (Node.constant scope m))).all Node.isLiteral := by
    rw [List.all_map, List.all_eq_true]
    intro n hn
    rcases hfolded n hn with ⟨v, -, -, hliteral⟩
    exact (Node.isLiteral_iff _).mpr ⟨v, hliteral⟩
  have hclosed' : (operands.map (Node.mapClosed (Node.constant scope m))).all Node.isClosed := by
    rw [List.all_map, List.all_eq_true]
    intro n hn
    rcases hfolded n hn with ⟨v, -, -, hliteral⟩
    exact Node.isClosed_of_literal? hliteral
  refine ⟨hliterals, ?_⟩
  rw [outcome_apply hroom op hclosed hmeans]
  exact means_apply op hclosed' (List.forall₂_map_left_iff.mpr
    (List.forall₂_map_right_iff.mpr (List.forall₂_same.mpr hmeans')))

/-- An operation on literals becomes the literal of its value, if there is one, and stays as it is
otherwise. -/
theorem perform_foldLiteral (hroom : m.stack.HasRoom) {n : Node}
    {outcome : Except EvalError Value} (h : n.Means outcome) :
    (foldLiteral n).perform scope m = (outcome.map fun v => (Node.ofValue? v).getD n, m) := by
  rw [foldLiteral, perform_bind, perform_restoring, h.perform_eval hroom]
  cases outcome with
  | error e =>
    dsimp only
    rw [(Stack.Under.refl m.stack).resetTo_mark]
    rfl
  | ok v => rfl

/-- What `perform_fold` says of an operation, given what it says of the operands. -/
theorem perform_fold_apply (hroom : m.stack.HasRoom) {op : Op} {operands : List Node}
    (hfree : (Node.apply op operands).ObjectFree)
    (hoperands : (foldAll operands).perform scope m
      = (unlessFault (firstFault scope m (Node.allClosedOperations operands))
          (operands.map (Node.mapClosed (Node.constant scope m))), m)) :
    (fold (.apply op operands)).perform scope m
      = (unlessFault (firstFault scope m (Node.apply op operands).closedOperations)
          ((Node.apply op operands).mapClosed (Node.constant scope m)), m) := by
  rw [fold, perform_bind, hoperands,
    Node.closedOperations_of_parts (Node.postorder_apply op operands), firstFault_append]
  cases hfault : firstFault scope m (Node.allClosedOperations operands) with
  | some e => rfl
  | none =>
    dsimp only [unlessFault, Option.none_or]
    cases hclosed : (Node.apply op operands).isClosed with
    | true =>
      -- Evaluated once more with its operands folded, it has its own outcome.
      rcases means_apply_folded hroom hclosed hfree hfault with ⟨hliterals, hmeans⟩
      have hself : (Node.apply op operands).isClosedOperation = true := hclosed
      simp only [hliterals, hself, if_true]
      rw [perform_foldLiteral hroom hmeans, firstFault_singleton, Node.mapClosed, if_pos hclosed]
      cases houtcome : (Node.apply op operands).outcome scope m with
      | error e => rfl
      | ok v =>
        simp only [Except.map, ofValue?_constant hroom hclosed hfree houtcome]
        rfl
    | false =>
      have hself : (Node.apply op operands).isClosedOperation = false := hclosed
      simp only [Node.all_isLiteral_of_not_isClosed hclosed, hself]
      rw [Node.mapClosed, hclosed, Node.mapAllClosed_eq_map]
      rfl

/-- Folding fails as the first closed operation that fails, and otherwise replaces the closed
operations that no other is around by their values. -/
theorem perform_fold (scope : Scope σ) (hroom : m.stack.HasRoom) (n : Node) : n.ObjectFree →
    (fold n).perform scope m
      = (unlessFault (firstFault scope m n.closedOperations)
          (n.mapClosed (Node.constant scope m)), m) := by
  -- In each construct the parts are folded first, and the first fault among them ends the folding.
  induction n using fold.induct
    (motive_2 := fun ns => (∀ n ∈ ns, n.ObjectFree) →
      (foldAll ns).perform scope m
        = (unlessFault (firstFault scope m (Node.allClosedOperations ns))
            (ns.map (Node.mapClosed (Node.constant scope m))), m))
  with
  | case1 op operands ih =>
    intro hfree
    exact perform_fold_apply hroom hfree
      (ih fun _ => hfree.of_mem (Node.subtrees_apply op operands))
  | case2 element items ih =>
    intro hfree
    rw [fold, perform_bind, ih fun _ => hfree.of_mem (Node.subtrees_list element items),
      Node.closedOperations_of_parts (Node.postorder_list element items), firstFault_append]
    cases firstFault scope m (Node.allClosedOperations items) with
    | some e => rfl
    | none =>
      rw [Node.mapClosed, Node.mapAllClosed_eq_map]
      rfl
  | case3 typeName fields ih =>
    intro hfree
    rw [fold, perform_bind, ih fun _ => hfree.of_mem (Node.subtrees_construct typeName fields),
      Node.closedOperations_of_parts (Node.postorder_construct typeName fields), firstFault_append]
    cases firstFault scope m (Node.allClosedOperations fields) with
    | some e => rfl
    | none =>
      rw [Node.mapClosed, Node.mapAllClosed_eq_map]
      rfl
  | case4 n happly hlist hconstruct =>
    intro hfree
    rw [fold_leaf happly hlist hconstruct, Node.closedOperations_leaf happly hlist hconstruct,
      Node.mapClosed_leaf happly hlist hconstruct]
    rfl
  | case5 _ =>
    rw [foldAll]
    rfl
  | case6 n ns hn hns hfree =>
    rw [foldAll, perform_bind, hn (hfree n List.mem_cons_self),
      Node.allClosedOperations_cons, firstFault_append]
    cases firstFault scope m n.closedOperations with
    | some e => rfl
    | none =>
      dsimp only [unlessFault, Option.none_or]
      rw [perform_bind, hns fun k hk => hfree k (List.mem_cons_of_mem _ hk)]
      cases firstFault scope m (Node.allClosedOperations ns) with
      | some e => rfl
      | none => rfl

end

/-! ## Trees that text is read as -/

/-- No text has objects in it. -/
theorem objectFree_of_parseExpression {text : String} {tokens unread rest : List Token} {n : Node}
    (htokens : tokenize text = .ok tokens) (hunread : unread <:+ tokens)
    (hread : Parser.parseExpression unread = (.ok (some n), rest)) : n.ObjectFree :=
  have hlexed := forall_isLexed_of_tokenize htokens
  (parsed_of_parseExpression (fun t ht => hlexed t (hunread.subset ht)) hread).1.objectFree

/-- Folding a tree without objects, such as every tree that is read from a text, fails exactly if a
closed operation in it fails on its own, and the error is that of the first of them that does, each
coming behind its own parts and these from left to right.  That the operation would not have been
evaluated, as in `true ? 1 : 1 / 0`, makes no difference.  Otherwise the closed operations that no
other is around are replaced by the literals of their values, and nothing else is changed. -/
theorem fold_closed_parts :
    (∀ {text : String} {tokens unread rest : List Token} {n : Node}, tokenize text = .ok tokens →
      unread <:+ tokens → Parser.parseExpression unread = (.ok (some n), rest) → n.ObjectFree) ∧
    ∀ {σ : Type} {scope : Scope σ} {m : Machine σ} {n : Node}, n.ObjectFree → m.stack.HasRoom →
      ((∃ e m', (fold n).perform scope m = (.error e, m')) ↔
        ∃ part ∈ n.subtrees, part.isOperation = true ∧ part.isClosed = true ∧
          ∃ e, part.outcome scope m = .error e) ∧
      (∀ e, (fold n).perform scope m = (.error e, m) ↔
        ∃ before part after, n.closedOperations = before ++ part :: after ∧
          (∀ k ∈ before, ∃ v, k.outcome scope m = .ok v) ∧ part.outcome scope m = .error e) ∧
      ((∀ part ∈ n.closedOperations, ∃ v, part.outcome scope m = .ok v) →
        (fold n).perform scope m = (.ok (n.mapClosed (Node.constant scope m)), m) ∧
          ∀ part ∈ n.closedOperations, ∃ v, part.outcome scope m = .ok v ∧
            Node.ofValue? v = some (part.constant scope m)) := by
  refine ⟨objectFree_of_parseExpression, ?_⟩
  intro σ scope m n hfree hroom
  have hfold := perform_fold scope hroom n hfree
  -- All parts of the statement are about the first fault in post-order, or about there being none.
  refine ⟨⟨?_, ?_⟩, fun e => ⟨?_, ?_⟩, fun hvalues => ⟨?_, ?_⟩⟩
  · rintro ⟨e, m', herror⟩
    rw [hfold] at herror
    have hfault := unlessFault_eq_error_iff.mp (congrArg Prod.fst herror)
    rcases exists_firstFault_iff.mp ⟨e, hfault⟩ with ⟨part, hmem, hpart⟩
    rcases Node.mem_closedOperations.mp hmem with ⟨hmem, hoperation, hclosed⟩
    exact ⟨part, hmem, hoperation, hclosed, hpart⟩
  · rintro ⟨part, hmem, hoperation, hclosed, hpart⟩
    have hmem := Node.mem_closedOperations.mpr ⟨hmem, hoperation, hclosed⟩
    rcases exists_firstFault_iff.mpr ⟨part, hmem, hpart⟩ with ⟨e, hfault⟩
    rw [hfold, hfault]
    exact ⟨e, m, rfl⟩
  · intro herror
    rw [hfold] at herror
    exact firstFault_eq_some_iff.mp (unlessFault_eq_error_iff.mp (congrArg Prod.fst herror))
  · intro hfirst
    rw [hfold, firstFault_eq_some_iff.mpr hfirst]
    rfl
  · rw [hfold, firstFault_eq_none_iff.mpr hvalues]
    rfl
  · intro part hmem
    rcases hvalues part hmem with ⟨v, hv⟩
    rcases Node.mem_closedOperations.mp hmem with ⟨hpart, -, hclosed⟩
    exact ⟨v, hv, ofValue?_constant hroom hclosed (hfree.of_mem_subtrees hpart) hv⟩

/-- `[x + (1 + 2), true ? 1 : 1 / 0, 1 % 0]` cannot be folded, and not on account of `1 % 0`: behind
`1 + 2`, which has a value, `1 / 0` is the first closed operation that fails.  The choice around it
has the value 1. -/
theorem fold_closed_parts_division :
    let sum : Node := .apply .add [.int 1, .int 2]
    let quotient : Node := .apply .div [.int 1, .int 0]
    let choice : Node := .apply .ternary [.bool true, .int 1, quotient]
    let remainder : Node := .apply .mod [.int 1, .int 0]
    let n : Node := .list .object [.apply .add [.ident "x", sum], choice, remainder]
    n.ObjectFree ∧ Machine.narrow.stack.HasRoom ∧
      n.closedOperations = [sum, quotient, choice, remainder] ∧
      choice.outcome .blank .narrow = .ok (.int 1) ∧
      (fold n).perform .blank .narrow = (.error .divisionByZero, .narrow) := by
  intro sum quotient choice remainder n
  have hfree : n.ObjectFree := by
    intro v hmem
    simp [n, sum, choice, quotient, remainder, Node.subtrees, Node.allSubtrees] at hmem
  have hroom : Machine.narrow.stack.HasRoom := Stack.hasRoom_ofSize
  have hoperations : n.closedOperations = [sum, quotient, choice, remainder] := rfl
  have hsum : sum.outcome .blank .narrow = .ok (.int 3) := rfl
  have hquotient : quotient.outcome .blank .narrow = .error .divisionByZero := rfl
  have hchoice : choice.outcome .blank .narrow = .ok (.int 1) := rfl
  refine ⟨hfree, hroom, hoperations, hchoice, ?_⟩
  refine ((fold_closed_parts.2 hfree hroom).2.1 .divisionByZero).mpr
    ⟨[sum], quotient, [choice, remainder], hoperations, ?_, hquotient⟩
  intro k hk
  rw [List.mem_singleton.mp hk]
  exact ⟨_, hsum⟩

end Edict
