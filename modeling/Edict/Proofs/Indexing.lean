import Edict.Proofs.Folding

namespace Edict

/-! # Folding right of a point

Right of a `.`, evaluation takes a name or a number as it is written and nothing else, so an
operation there always fails.  Folding does not know where an operation stands and may make it a
number, which is then taken: `a.(1 + 1)` fails and `a.2` is an element.  This is the one way in
which folding itself may turn a failure into a success: where no `.` has such an operation on its
right, and the objects in the tree answer as they always do, an expression that fails still fails
once it is folded, with the same error.

Main statements:

* `eval_member_error`: what may not stand right of a `.` makes the whole fail;
* `standsRight_fold_iff`: folding makes something acceptable right of a `.` only by computing an
  index;
* `eval_fold_error`: without that, failures stay.
-/

/-- Whether evaluation takes the expression right of a `.`. -/
def Node.standsRight : Node → Bool
  | .ident _ | .int _ => true
  | _ => false

section

variable {σ : Type} {scope : Scope σ} {m m' : Machine σ} {n n' owner member member' : Node}

/-! ## What is taken right of a point -/

/-- What cannot stand right of a `.` fails there, whatever the owner is. -/
theorem memberOf_of_not_standsRight (h : member.standsRight = false) (object : ObjectRef) :
    (EvalM.memberOf object member : EvalM σ ValueInfo) = throw .invalidMemberOperand := by
  refine memberOf_of_ne ?_ ?_ object
  · rintro name rfl
    cases h
  · rintro i rfl
    cases h

/-- What is not taken makes the whole fail, whatever stands on the left. -/
theorem eval_member_error (h : member.standsRight = false) (m : Machine σ) :
    ∃ e m₁, (eval (.apply .member [owner, member])).perform scope m = (.error e, m₁) := by
  rw [eval_member, EvalM.perform_bind]
  rcases (EvalM.popped (eval owner)).perform scope m with ⟨e | v, m₁⟩
  · exact ⟨e, m₁, rfl⟩
  · dsimp only
    rw [EvalM.perform_bind]
    rcases (EvalM.memberOwner v).perform scope m₁ with ⟨e | object, m₂⟩
    · exact ⟨e, m₂, rfl⟩
    · dsimp only
      rw [memberOf_of_not_standsRight h]
      exact ⟨.invalidMemberOperand, m₂, rfl⟩

/-- What comes of folding an operation is an operation or a literal. -/
theorem fold_apply_cases {op : Op} {operands : List Node}
    (hfold : (fold (.apply op operands)).perform scope m = (.ok n', m')) :
    n'.isOperation = true ∨ n'.isLiteral = true := by
  rw [fold] at hfold
  rcases EvalM.perform_bind_ok scope hfold with ⟨operands', m₁, -, hrest⟩
  by_cases hliterals : operands'.all Node.isLiteral = true
  · simp only [hliterals, if_true] at hrest
    rw [foldLiteral] at hrest
    rcases EvalM.perform_bind_ok scope hrest with ⟨v, m₂, -, hvalue⟩
    cases hvalue
    cases hliteral : Node.ofValue? v with
    | none => exact .inl rfl
    | some literal => exact .inr (literal.isLiteral_iff.mpr ⟨v, Node.literal?_of_ofValue? hliteral⟩)
  · simp only [hliterals] at hrest
    cases hrest
    exact .inl rfl

/-- Folding makes a part acceptable right of a `.` only by computing an index, and never the other
way. -/
theorem standsRight_fold_iff (hfold : (fold member).perform scope m = (.ok member', m')) :
    member'.standsRight = true ↔
      member.standsRight = true ∨ member.ComputesIndex scope m := by
  -- Only an operation may be folded to an index that was not there before.
  cases member with
  | apply op operands =>
    constructor
    · intro hright
      refine .inr ⟨rfl, ?_⟩
      cases member' with
      | int i => exact ⟨i, m', hfold⟩
      | ident name => rcases fold_apply_cases hfold with h | h <;> cases h
      | _ => cases hright
    · rintro (h | ⟨-, i, m₁, hindex⟩)
      · cases h
      · rw [hfold] at hindex
        cases hindex
        rfl
  | list element items =>
    rw [fold] at hfold
    rcases EvalM.perform_bind_ok scope hfold with ⟨items', m₁, -, hrest⟩
    cases hrest
    simp [Node.standsRight, Node.ComputesIndex, Node.isOperation]
  | construct typeName fields =>
    rw [fold] at hfold
    rcases EvalM.perform_bind_ok scope hfold with ⟨fields', m₁, -, hrest⟩
    cases hrest
    simp [Node.standsRight, Node.ComputesIndex, Node.isOperation]
  | _ =>
    rw [fold] at hfold
    · cases hfold
      simp [Node.ComputesIndex, Node.isOperation]
    all_goals simp

/-! ## Failures stay -/

/-- Where no `.` has an operation on its right that folding makes a number, an expression that fails
still fails once it is folded, with the same error, and what stands right of a `.` is taken after
folding just if it was before.

The objects that stand in the tree as literals, and those among their elements, must give the same
answers from the moment of folding on. -/
theorem eval_fold_error {k : Standing} (hwritten : n.IndexesWritten scope m)
    (hk : n.ObjectsIn k.holds) (hupholds : scope.Upholds k m.world)
    (hfold : (fold n).perform scope m = (.ok n', m')) :
    m' = m ∧
    (∀ e m₁, (eval n).perform scope m = (.error e, m₁) →
      (eval n').perform scope m = (.error e, m₁)) ∧
    ∀ owner member, .apply .member [owner, member] ∈ n.subtrees → ∀ member' m₁,
      (fold member).perform scope m = (.ok member', m₁) →
        member'.standsRight = member.standsRight := by
  rcases replaces_of_fold_of_indexesWritten n m m' n' hwritten hk hupholds hfold with ⟨hm, hreplaces⟩
  refine ⟨hm, ?_, ?_⟩
  · intro e m₁ herror
    rw [← herror]
    exact (hreplaces.value scope m.world hupholds).symm
  · intro owner member hmem member' m₁ hmember
    have hiff := standsRight_fold_iff hmember
    have hno := hwritten owner member hmem
    rw [Bool.eq_iff_iff, hiff]
    constructor
    · rintro (hright | hindex)
      · exact hright
      · exact absurd hindex hno
    · exact .inl

end

/-! ## An index that is computed -/

namespace ComputedIndex

/-- A host that has one list, by every name. -/
def scope : Scope Unit :=
  let items : ObjectRef := .ofList 0 .int [.int 10, .int 20, .int 30]
  { objects := {}
    selectors := [(⟨0⟩, .readOnly fun _ _ => pure (some (.object items)))]
    initializers := .empty }

/-- An empty stack with room for one number and one object. -/
def machine : Machine Unit := ⟨.ofSize ⟨4, 1⟩, ⟨(), 1⟩⟩

/-- The number of an element as a sum of `b` and more, which `b` keeps from being folded. -/
def openIndex (more : Node) : Node := .apply .add [.ident "b", more]

/-- `a.(b + (1 + 1))` fails before it is folded and, as `a.(b + 2)`, after. -/
theorem eval_fold_error_openIndex :
    let n : Node := .apply .member [.ident "a", openIndex (.apply .add [.int 1, .int 1])]
    let n' : Node := .apply .member [.ident "a", openIndex (.int 2)]
    n.IndexesWritten scope machine ∧ (fold n).perform scope machine = (.ok n', machine) ∧
      (eval n).perform scope machine = (.error .invalidMemberOperand, machine) ∧
      (eval n').perform scope machine = (.error .invalidMemberOperand, machine) := by
  intro n n'
  have hmember : (fold (openIndex (.apply .add [.int 1, .int 1]))).perform scope machine
      = (.ok (openIndex (.int 2)), machine) := rfl
  have hwritten : n.IndexesWritten scope machine := by
    intro owner member hmem
    have heq : owner = .ident "a" ∧ member = openIndex (.apply .add [.int 1, .int 1]) := by
      simpa [n, openIndex, Node.subtrees, Node.allSubtrees] using hmem
    rcases heq with ⟨rfl, rfl⟩
    rintro ⟨-, i, m₁, hindex⟩
    rw [hmember] at hindex
    cases hindex
  have hk : n.ObjectsIn Standing.none.holds := by
    intro o hmem
    simp [n, openIndex, Node.subtrees, Node.allSubtrees] at hmem
  have hfold : (fold n).perform scope machine = (.ok n', machine) := rfl
  have herror : (eval n).perform scope machine = (.error .invalidMemberOperand, machine) := rfl
  exact ⟨hwritten, hfold, herror,
    (eval_fold_error hwritten hk (scope.upholds_none _) hfold).2.1 _ _ herror⟩

/-- `a.(1 + 1)` fails, but it is folded to `a.2`, which is an element of the list. -/
theorem fold_makes_index :
    let n : Node := .apply .member [.ident "a", .apply .add [.int 1, .int 1]]
    let n' : Node := .apply .member [.ident "a", .int 2]
    (fold n).perform scope machine = (.ok n', machine) ∧
      (eval n).perform scope machine = (.error .invalidMemberOperand, machine) ∧
      (∃ info m₁, (eval n').perform scope machine = (.ok info, m₁)) ∧
      ((evalValue n').perform scope machine).1 = .ok (.int 30) := by
  intro n n'
  have hfold : (fold n).perform scope machine = (.ok n', machine) := rfl
  have herror : (eval n).perform scope machine = (.error .invalidMemberOperand, machine) := rfl
  have hvalue : ((evalValue n').perform scope machine).1 = .ok (.int 30) := rfl
  exact ⟨hfold, herror, ⟨_, _, rfl⟩, hvalue⟩

end ComputedIndex

end Edict
