import Edict.Proofs.Inertness
import Edict.Proofs.Refinement

namespace Edict

/-! # Closed expressions

An expression is closed if there is no name, no list and no new object in it.  What an operation on
closed expressions comes to is a matter of what these come to: how they are written makes no
difference, since none of them can be assigned to and none has an object as its value.

Main statements:

* `means_apply`: the outcome of a closed operation is combined from the outcomes of its operands;
* `means_outcome`: a closed expression has one outcome, on any stack with room for a value and with
  any host.
-/

open EvalM

namespace Node

/-- Whether the expression asks the host for something, or may do so. -/
def needsHost : Node → Bool
  | ident _ | list _ _ | construct _ _ => true
  | _ => false

/-- Whether there is no name, no list and no new object in the tree. -/
def isClosed (n : Node) : Bool := n.subtrees.all fun part => !part.needsHost

/-- An operation is closed if its operands are. -/
theorem isClosed_apply (op : Op) (operands : List Node) :
    (apply op operands).isClosed = operands.all isClosed := by
  rw [isClosed, subtrees_apply, List.all_cons, allSubtrees_all]
  rfl

theorem isClosed_of_literal? {n : Node} {v : Value} (h : n.literal? = some v) :
    n.isClosed = true := by
  cases n <;> cases h <;> simp [isClosed, subtrees, needsHost]

/-- What is closed is a literal or an operation. -/
theorem cases_of_isClosed {n : Node} (h : n.isClosed = true) :
    (∃ v, n.literal? = some v) ∨ ∃ op operands, n = apply op operands := by
  cases n with
  | apply op operands => exact .inr ⟨op, operands, rfl⟩
  | ident name => simp [isClosed, subtrees, needsHost] at h
  | list element items => simp [isClosed, subtrees, needsHost] at h
  | construct typeName fields => simp [isClosed, subtrees, needsHost] at h
  | _ => exact .inl ⟨_, rfl⟩

/-- Nothing closed can be assigned to, as there is a name in every target. -/
theorem isTarget_eq_false_of_isClosed {n : Node} (h : n.isClosed = true) :
    n.isTarget = false := by
  refine isTarget_eq_false ?_ ?_
  · rintro name rfl
    simp [isClosed, subtrees, needsHost] at h
  · rintro owner name rfl
    rw [isClosed_apply] at h
    simp [isClosed, subtrees, needsHost] at h

end Node

/-! ## What closed expressions mean -/

/-- The error of a `.` behind a value that is no object. -/
def Value.ownerFault : Value → EvalError
  | .null => .nullReference
  | v => .invalidMemberOwner v.kind

/-- A plain value owns nothing. -/
theorem Value.asOwner_of_isPlain {v : Value} (h : v.isPlain = true) :
    v.asOwner = .error v.ownerFault := by
  cases v <;> first | rfl | cases h

/-- The outcome of an operation, given the outcomes of its operands, of which none is written as a
name or a member and none has an object as its value, so that none is asked for its string form. -/
def Op.combine (op : Op) (outcomes : List (Except EvalError Value)) : Except EvalError Value :=
  if outcomes.length ≠ op.arity then .error (.invalidArity op outcomes.length)
  else match outcomes with
    | [a] => do evaluateUnary op (← a)
    | [a, b] =>
      if op = .member then do .error (← a).ownerFault
      else if op = .assign then .error .invalidAssignmentTarget
      else do
        let v ← a
        match decided? op v with
        | some b => return .bool b
        | none => evaluateKnown "" op v (← b)
    | [condition, yes, no] => do
      match ← condition with
      | .bool true => yes
      | .bool false => no
      | v => .error (.ternaryCondition v.kind)
    | _ => .error (.invalidArity op outcomes.length)

namespace Op

variable {op : Op}

/-- With another number of operands than it takes, an operation fails at once. -/
theorem combine_of_length_ne {outcomes : List (Except EvalError Value)}
    (h : outcomes.length ≠ op.arity) :
    op.combine outcomes = .error (.invalidArity op outcomes.length) := by
  unfold combine
  rw [if_pos h]

/-- What each kind of operation makes of the outcomes of its operands. -/
theorem combine_unary (h : op.arity = 1) (a : Except EvalError Value) :
    op.combine [a] = a >>= evaluateUnary op := by
  unfold combine
  rw [if_neg (by simp [h])]

theorem combine_member (a b : Except EvalError Value) :
    combine .member [a, b] = a >>= fun v => .error v.ownerFault := rfl

theorem combine_assign (a b : Except EvalError Value) :
    combine .assign [a, b] = .error .invalidAssignmentTarget := rfl

theorem combine_binary (h : op.arity = 2) (hmember : op ≠ .member) (hassign : op ≠ .assign)
    (a b : Except EvalError Value) :
    op.combine [a, b] = a >>= fun v => match decided? op v with
      | some c => .ok (.bool c)
      | none => b >>= evaluateKnown "" op v := by
  unfold combine
  rw [if_neg (by simp [h])]
  simp only [hmember, hassign, if_false]
  rfl

theorem combine_ternary (condition yes no : Except EvalError Value) :
    combine .ternary [condition, yes, no] = condition >>= fun v => match v with
      | .bool true => yes
      | .bool false => no
      | v => .error (.ternaryCondition v.kind) := rfl

end Op

/-- Of values that are no objects, none is asked for its string form. -/
theorem run_evaluateBinary_of_isPlain {σ : Type} (host : Objects σ) (op : Op) {a b : Value}
    (ha : a.isPlain = true) (hb : b.isPlain = true) (w : World σ) :
    (evaluateBinary host op a b).run w = (evaluateKnown "" op a b, w) := by
  have hask : askText host a b = pure "" := by
    unfold askText spelled?
    split
    · next h =>
      split at h
      · cases hb
      · cases ha
      · cases h
    · rfl
  rw [run_evaluateBinary, hask]
  rfl

/-- In every scope and every world the expression has this outcome, and it is no object and not
`void`. -/
structure Node.Means (n : Node) (outcome : Except EvalError Value) : Prop where
  perform_eq : ∀ {σ : Type} (scope : Scope σ) (w : World σ),
    n.meaning.perform scope w = (outcome, w)
  plain : ∀ {v : Value}, outcome = .ok v → v.isPlain = true

/-- A literal means its value. -/
theorem Node.means_of_literal? {n : Node} {v : Value} (h : n.literal? = some v)
    (hplain : v.isPlain = true) : n.Means (.ok v) where
  perform_eq scope w := by
    rw [n.meaning_of_literal? h]
    rfl
  plain := by
    rintro _ ⟨⟩
    exact hplain

section

variable {op : Op} {a b c : Node} {o p q : Except EvalError Value}

/-- An operation means what is made of what its operands mean: one case for each kind. -/
theorem means_unary (h : op.arity = 1) (ha : a.Means o) :
    (Node.apply op [a]).Means (op.combine [o]) := by
  rw [Op.combine_unary h]
  constructor
  · intro σ scope w
    rw [Node.meaning_unary h, HostM.perform_bind, ha.perform_eq]
    cases o with
    | error e => rfl
    | ok v => rfl
  · intro v hv
    rcases bind_eq_ok_iff.mp hv with ⟨v', -, hv⟩
    exact (isComputed_evaluateUnary op v').isPlain hv

/-- A closed expression is no owner. -/
theorem means_member (ha : a.Means o) (b : Node) (p : Except EvalError Value) :
    (Node.apply .member [a, b]).Means (Op.combine .member [o, p]) := by
  rw [Op.combine_member]
  constructor
  · intro σ scope w
    rw [Node.meaning_member, HostM.perform_bind, ha.perform_eq]
    cases o with
    | error e => rfl
    | ok v =>
      dsimp only
      rw [Value.asOwner_of_isPlain (ha.plain rfl)]
      rfl
  · intro v hv
    rcases bind_eq_ok_iff.mp hv with ⟨v', -, hv⟩
    cases hv

/-- What is no target cannot be assigned to, whatever else is the case. -/
theorem means_assign (ha : a.isTarget = false) (b : Node) (o p : Except EvalError Value) :
    (Node.apply .assign [a, b]).Means (Op.combine .assign [o, p]) := by
  rw [Op.combine_assign]
  refine ⟨fun scope w => ?_, fun hv => by cases hv⟩
  rw [Node.meaning_assign_of_not_isTarget ha]
  rfl

theorem means_binary (h : op.arity = 2) (hmember : op ≠ .member) (hassign : op ≠ .assign)
    (ha : a.Means o) (hb : b.Means p) : (Node.apply op [a, b]).Means (op.combine [o, p]) := by
  rw [Op.combine_binary h hmember hassign]
  constructor
  · intro σ scope w
    rw [Node.meaning_binary h hmember hassign, HostM.perform_bind, ha.perform_eq]
    cases o with
    | error e => rfl
    | ok v =>
      show HostM.perform _ scope w = (Except.bind (.ok v) _, w)
      dsimp only [Except.bind]
      -- Where the left operand decides, the right one has no say, not even by its error.
      cases decided? op v with
      | some c => rfl
      | none =>
        refine (HostM.perform_bind b.meaning _ scope w).trans ?_
        rw [hb.perform_eq]
        cases p with
        | error e => rfl
        | ok v' =>
          exact run_evaluateBinary_of_isPlain scope.objects op (ha.plain rfl) (hb.plain rfl) w
  · intro v hv
    rcases bind_eq_ok_iff.mp hv with ⟨v', -, hv⟩
    cases hdecided : decided? op v' with
    | some c =>
      rw [hdecided] at hv
      cases hv
      rfl
    | none =>
      rw [hdecided] at hv
      rcases bind_eq_ok_iff.mp hv with ⟨w, -, hv⟩
      exact (isComputed_evaluateKnown "" op v' w).isPlain hv

theorem means_ternary (ha : a.Means o) (hb : b.Means p) (hc : c.Means q) :
    (Node.apply .ternary [a, b, c]).Means (Op.combine .ternary [o, p, q]) := by
  rw [Op.combine_ternary]
  constructor
  · intro σ scope w
    rw [Node.meaning_ternary, HostM.perform_bind, ha.perform_eq]
    cases o with
    | error e => rfl
    | ok v =>
      cases v with
      | bool yes =>
        cases yes with
        | true => exact hb.perform_eq scope w
        | false => exact hc.perform_eq scope w
      | _ => rfl
  · intro v hv
    rcases bind_eq_ok_iff.mp hv with ⟨v', -, hv⟩
    split at hv
    · exact hb.plain hv
    · exact hc.plain hv
    · cases hv

/-- The outcome of an operation with closed operands is that of combining theirs. -/
theorem means_apply (op : Op) {operands : List Node} {outcomes : List (Except EvalError Value)}
    (hclosed : operands.all Node.isClosed = true)
    (h : List.Forall₂ Node.Means operands outcomes) :
    (Node.apply op operands).Means (op.combine outcomes) := by
  have hlength := h.length_eq
  by_cases harity : operands.length = op.arity
  · rcases Op.operands_cases harity with ⟨a, rfl⟩ | ⟨a, b, rfl⟩ | ⟨rfl, a, b, c, rfl⟩
    · rcases h with _ | ⟨ha, _ | _⟩
      exact means_unary harity.symm ha
    · rcases h with _ | ⟨ha, _ | ⟨hb, _ | _⟩⟩
      by_cases hmember : op = .member
      · subst hmember
        exact means_member ha b _
      · -- A closed tree has no name in it, and so nothing that could be assigned to.
        by_cases hassign : op = .assign
        · subst hassign
          have htarget := Node.isTarget_eq_false_of_isClosed
            (List.all_eq_true.mp hclosed a List.mem_cons_self)
          exact means_assign htarget b _ _
        · exact means_binary harity.symm hmember hassign ha hb
    · rcases h with _ | ⟨ha, _ | ⟨hb, _ | ⟨hc, _ | _⟩⟩⟩
      exact means_ternary ha hb hc
  · rw [Op.combine_of_length_ne (by rwa [← hlength]), ← hlength]
    refine ⟨fun scope w => ?_, fun hv => by cases hv⟩
    rw [Node.meaning_of_length_ne harity]
    rfl

end

/-! ## Closed expressions on their own -/

section

variable {σ : Type} {scope : Scope σ} {m : Machine σ}

/-- What comes of evaluating the expression on its own. -/
def Node.outcome (scope : Scope σ) (m : Machine σ) (n : Node) : Except EvalError Value :=
  ((evalValue n).perform scope m).1

/-- On a stack with room for a value, an expression has the outcome that it means. -/
theorem Node.Means.perform_eval {n : Node} {outcome : Except EvalError Value}
    (h : n.Means outcome) (hroom : m.stack.HasRoom) :
    (evalValue n).perform scope m = (outcome, m) := by
  rcases m with ⟨s, w⟩
  rw [perform_evalValue scope hroom n w, h.perform_eq]

theorem Node.Means.outcome_eq {n : Node} {outcome : Except EvalError Value}
    (h : n.Means outcome) (hroom : m.stack.HasRoom) : n.outcome scope m = outcome :=
  congrArg Prod.fst (h.perform_eval hroom)

theorem forall₂_means_outcome {operands : List Node}
    (h : ∀ n ∈ operands, n.Means (n.outcome scope m)) :
    List.Forall₂ Node.Means operands (operands.map (Node.outcome scope m)) :=
  List.forall₂_map_right_iff.mpr (List.forall₂_same.mpr h)

/-- The outcome of a closed operation is made of those of its operands. -/
theorem outcome_apply (hroom : m.stack.HasRoom) (op : Op) {operands : List Node}
    (hclosed : operands.all Node.isClosed = true)
    (h : ∀ n ∈ operands, n.Means (n.outcome scope m)) :
    (Node.apply op operands).outcome scope m
      = op.combine (operands.map (Node.outcome scope m)) :=
  (means_apply op hclosed (forall₂_means_outcome h)).outcome_eq hroom

/-- A closed expression means what comes of evaluating it on its own, on any stack with room for a
value. -/
theorem means_outcome (scope : Scope σ) (hroom : m.stack.HasRoom) (n : Node) :
    n.isClosed = true → n.ObjectFree → n.Means (n.outcome scope m) := by
  -- A closed tree is a literal or an operation, so the cases of lists and of new objects are void.
  induction n using Node.subtrees.induct
    (motive_2 := fun ns => ∀ n ∈ ns, n.isClosed = true → n.ObjectFree →
      n.Means (n.outcome scope m))
  with
  | case1 | case2 =>
    intro hclosed
    rcases Node.cases_of_isClosed hclosed with ⟨v, hv⟩ | ⟨op, operands, hn⟩
    · cases hv
    · cases hn
  | case3 op operands ih =>
    intro hclosed hfree
    rw [Node.isClosed_apply] at hclosed
    have hoperands : ∀ n ∈ operands, n.Means (n.outcome scope m) := fun n hn =>
      ih n hn (List.all_eq_true.mp hclosed n hn) (hfree.of_mem (Node.subtrees_apply op operands) hn)
    rw [outcome_apply hroom op hclosed hoperands]
    exact means_apply op hclosed (forall₂_means_outcome hoperands)
  | case4 n _ _ happly =>
    intro hclosed hfree
    rcases Node.cases_of_isClosed hclosed with ⟨v, hv⟩ | ⟨op, operands, hn⟩
    · have hmeans := Node.means_of_literal? hv (hfree.isPlain hv)
      rw [hmeans.outcome_eq hroom]
      exact hmeans
    · exact (happly op operands hn).elim
  | case5 n hn => cases hn
  | case6 n ns hn hns k hk hclosed hfree =>
    rcases List.mem_cons.mp hk with rfl | hk
    · exact hn hclosed hfree
    · exact hns k hk hclosed hfree

end

end Edict
