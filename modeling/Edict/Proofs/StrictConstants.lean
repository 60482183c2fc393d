import Edict.Proofs.ClosedParts

namespace Edict

/-! # Folding constants is evaluating them

Most operators need the values of all their operands.  In a tree that is made of literals and such
operators alone, every operation is closed, and evaluating the tree evaluates them all, in the order
in which they are folded.  So folding and evaluating come to the same, whichever operations fail.

Main statement: `fold_eq_evalValue_of_strict`.
-/

/-- Whether the operator needs the values of all of its operands. -/
def Op.isStrict : Op → Bool
  | and | or | member | assign | ternary => false
  | _ => true

/-- Literals other than objects, and operations on such expressions that need the values of all their
operands and have as many as they should. -/
inductive Node.Strict : Node → Prop
  | literal {n : Node} {v : Value} (hliteral : n.literal? = some v) (hplain : v.isPlain = true) :
      Strict n
  | apply {op : Op} {operands : List Node} (hop : op.isStrict = true)
      (harity : operands.length = op.arity) (hoperands : ∀ operand ∈ operands, Strict operand) :
      Strict (.apply op operands)

/-- An operator that needs both operands is never decided by the first. -/
theorem decided?_of_isStrict {op : Op} (h : op.isStrict = true) (v : Value) :
    decided? op v = none := by
  unfold decided?
  split
  · cases h
  · cases h
  · rfl

/-- Trees of literals and such operators are closed, and have no objects. -/
theorem Node.Strict.isClosed {n : Node} (h : n.Strict) : n.isClosed = true := by
  induction h with
  | literal hliteral _ => exact isClosed_of_literal? hliteral
  | apply _ _ _ ih =>
    rw [isClosed_apply]
    exact List.all_eq_true.mpr ih

theorem Node.Strict.objectFree {n : Node} (h : n.Strict) : n.ObjectFree := by
  induction h with
  | literal hliteral hplain =>
    exact objectsIn_of_ofValue? (Value.objectsIn_of_isPlain hplain) (ofValue?_of_literal? hliteral)
  | apply _ _ _ ih => exact .of_parts (by simp) (subtrees_apply _ _) ih

/-- There are one or two operands. -/
theorem Op.arity_of_isStrict {op : Op} (h : op.isStrict = true) : op.arity = 1 ∨ op.arity = 2 := by
  cases op <;> first | exact .inl rfl | exact .inr rfl | cases h

/-- An operation that needs the values of all its operands fails as the first of them that fails. -/
theorem Op.combine_of_fault {op : Op} {outcomes : List (Except EvalError Value)} {e : EvalError}
    (hop : op.isStrict = true) (hlength : outcomes.length = op.arity)
    (h : outcomes.findSome? faultOf = some e) : op.combine outcomes = .error e := by
  rcases arity_of_isStrict hop with harity | harity
  · rcases List.length_eq_one_iff.mp (hlength.trans harity) with ⟨a, rfl⟩
    rw [List.findSome?_singleton, faultOf_eq_some_iff] at h
    rw [combine_unary harity, h]
    rfl
  · rcases List.length_eq_two.mp (hlength.trans harity) with ⟨a, b, rfl⟩
    have hmember : op ≠ .member := by
      rintro rfl
      cases hop
    have hassign : op ≠ .assign := by
      rintro rfl
      cases hop
    rw [combine_binary harity hmember hassign]
    cases a with
    | error e' =>
      cases h
      rfl
    | ok v =>
      -- No value on the left keeps the operation from failing as its right operand does.
      rw [List.findSome?_cons, List.findSome?_singleton] at h
      rw [faultOf_eq_some_iff.mp h]
      simp only [bind, Except.bind, decided?_of_isStrict hop]

section

variable {σ : Type} {scope : Scope σ} {m : Machine σ}

/-- The first fault of several trees is the fault of the first tree that has one. -/
theorem firstFault_allClosedOperations {ns : List Node}
    (h : ∀ n ∈ ns, firstFault scope m n.closedOperations = faultOf (n.outcome scope m)) :
    firstFault scope m (Node.allClosedOperations ns)
      = (ns.map (Node.outcome scope m)).findSome? faultOf := by
  induction ns with
  | nil => rfl
  | cons n ns ih =>
    rcases List.forall_mem_cons.mp h with ⟨hn, hns⟩
    rw [Node.allClosedOperations_cons, firstFault_append, hn, ih hns, List.map_cons,
      List.findSome?_cons]
    cases faultOf (n.outcome scope m) with
    | some e => rfl
    | none => rfl

/-- The first operation that fails on its own is the one that the whole fails with. -/
theorem Node.Strict.firstFault_eq {n : Node} (h : n.Strict) (scope : Scope σ)
    (hroom : m.stack.HasRoom) :
    firstFault scope m n.closedOperations = faultOf (n.outcome scope m) := by
  induction h with
  | literal hliteral hplain =>
    rw [(means_of_literal? hliteral hplain).outcome_eq hroom, closedOperations_of_literal? hliteral]
    rfl
  | @apply op operands hop harity hoperands ih =>
    have hself : (Node.apply op operands).Strict := .apply hop harity hoperands
    have hclosed : operands.all Node.isClosed = true :=
      List.all_eq_true.mpr fun n hn => (hoperands n hn).isClosed
    have houtcome := outcome_apply hroom op hclosed fun n hn =>
      means_outcome scope hroom n (hoperands n hn).isClosed (hoperands n hn).objectFree
    rw [closedOperations_of_parts (postorder_apply op operands), isClosedOperation, hself.isClosed,
      firstFault_append, firstFault_allClosedOperations ih]
    cases hfault : (operands.map (outcome scope m)).findSome? faultOf with
    | some e =>
      rw [houtcome, Op.combine_of_fault hop (by rwa [List.length_map]) hfault]
      rfl
    | none => exact firstFault_singleton _

/-- On its own, such an expression has a value, and is folded to its literal, or fails, and folding
fails alike. -/
theorem Node.Strict.fold_cases {n : Node} (h : n.Strict) (scope : Scope σ)
    (hroom : m.stack.HasRoom) :
    (∃ v literal, (evalValue n).perform scope m = (.ok v, m) ∧ Node.ofValue? v = some literal ∧
        (fold n).perform scope m = (.ok literal, m)) ∨
      ∃ e, (evalValue n).perform scope m = (.error e, m) ∧
        (fold n).perform scope m = (.error e, m) := by
  have heval : (evalValue n).perform scope m = (n.outcome scope m, m) :=
    (means_outcome scope hroom n h.isClosed h.objectFree).perform_eval hroom
  have hfirst := h.firstFault_eq scope hroom
  have hfold := perform_fold scope hroom n h.objectFree
  cases houtcome : n.outcome scope m with
  | error e =>
    rw [houtcome] at heval hfirst
    rw [hfirst] at hfold
    exact .inr ⟨e, heval, hfold⟩
  | ok v =>
    rw [houtcome] at hfirst
    rcases exists_literal_of_closed hroom h.isClosed h.objectFree hfirst with
      ⟨v', hv', -, hliteral⟩
    rw [hv'] at heval
    rw [hfirst] at hfold
    exact .inl ⟨v', _, heval, ofValue?_of_literal? hliteral, hfold⟩

/-- Folding such an expression results in the literal of its value if it has one, and fails with the
error that evaluating it fails with if it has none. -/
theorem fold_eq_evalValue_of_strict {n : Node} (hstrict : n.Strict) (hroom : m.stack.HasRoom) :
    (∀ v m', (evalValue n).perform scope m = (.ok v, m') ↔
      ∃ literal, Node.ofValue? v = some literal ∧
        (fold n).perform scope m = (.ok literal, m')) ∧
    ∀ e m', (evalValue n).perform scope m = (.error e, m') ↔
      (fold n).perform scope m = (.error e, m') := by
  -- Both come to a value and its literal, or both to the same error, on the machine as it was.
  rcases hstrict.fold_cases scope hroom with ⟨v, literal, heval, hliteral, hfold⟩ |
      ⟨e, heval, hfold⟩
  · rw [heval, hfold]
    refine ⟨fun v' m' => ⟨?_, ?_⟩, fun e' m' => ⟨?_, ?_⟩⟩
    · rintro ⟨⟩
      exact ⟨literal, hliteral, rfl⟩
    · -- The literal is the literal of one value only.
      rintro ⟨literal', hliteral', ⟨⟩⟩
      have hvalues := (Node.literal?_of_ofValue? hliteral).symm.trans
        (Node.literal?_of_ofValue? hliteral')
      rw [Option.some.inj hvalues]
    · rintro ⟨⟩
    · rintro ⟨⟩
  · rw [heval, hfold]
    refine ⟨fun v m' => ⟨?_, ?_⟩, fun e' m' => ⟨?_, ?_⟩⟩
    · rintro ⟨⟩
    · rintro ⟨literal, -, ⟨⟩⟩
    · rintro ⟨⟩
      rfl
    · rintro ⟨⟩
      rfl

end

/-- Two parts of `-true + 1 / 0` fail.  Evaluating it fails as `-true` does, and so does folding it. -/
theorem fold_eq_evalValue_of_strict_two_faults :
    let n : Node := .apply .add [.apply .neg [.bool true], .apply .div [.int 1, .int 0]]
    let e : EvalError := .unaryTypeMismatch .neg .bool
    n.Strict ∧ Machine.narrow.stack.HasRoom ∧
      (evalValue n).perform .blank .narrow = (.error e, .narrow) ∧
      (fold n).perform .blank .narrow = (.error e, .narrow) := by
  intro n e
  have hbool : (Node.bool true).Strict := .literal rfl rfl
  have hone : (Node.int 1).Strict := .literal rfl rfl
  have hzero : (Node.int 0).Strict := .literal rfl rfl
  have hleft : (Node.apply .neg [.bool true]).Strict := .apply rfl rfl (by simpa using hbool)
  have hright : (Node.apply .div [.int 1, .int 0]).Strict :=
    .apply rfl rfl (by simpa using ⟨hone, hzero⟩)
  have hstrict : n.Strict := .apply rfl rfl (by simpa using ⟨hleft, hright⟩)
  have hroom : Machine.narrow.stack.HasRoom := Stack.hasRoom_ofSize
  have heval : (evalValue n).perform .blank .narrow = (.error e, .narrow) := rfl
  exact ⟨hstrict, hroom, heval, ((fold_eq_evalValue_of_strict hstrict hroom).2 e .narrow).mp heval⟩

end Edict
