import Edict.Evaluation.Machine
import Edict.Node
import Edict.Evaluation.Operators

/-! # Evaluation

`eval` leaves the value of an expression on the stack and tells where it stands.  Operands are
evaluated from left to right and popped before the result is pushed, so that one value at most is
alive above the height that evaluation started at.  `fold` evaluates the constant parts of an
expression ahead of time.
-/

namespace Edict

namespace EvalM

variable {σ : Type}

/-! ## Names, members and elements -/

/-- Pushes an element of an object.  An object that cannot be indexed has `void` everywhere. -/
def listElement (owner : ObjectRef) (index : Int32) : EvalM σ ValueInfo := do
  pushValue (← onWorldExcept ((← objects).element owner index))

/-- A number of elements as the value that it has in expressions. -/
def countValue (length : Nat) : Value := .int (Int32.ofNat (min length 2147483647))

/-- The selectors in the order in which they are asked. -/
def selectors : EvalM σ (List (Selector σ)) := do
  return (← read).selectors.map (·.2)

def selectName (name : String) : EvalM σ ValueInfo := do
  match ← onWorld (Selector.selectFirst none name (← selectors)) with
  | some v => pushValue v
  | none => throw (.undefinedIdentifier name)

/-- Pushes a member of an object: the number of its elements; or what the object answers, if it owns
its members; or what the selectors answer, where an integer means an element of a list. -/
def selectMember (owner : ObjectRef) (name : String) : EvalM σ ValueInfo := do
  if name = "Count" ∧ owner.isIndexed then
    pushValue (countValue (← onWorld ((← objects).count owner)))
  else if owner.ownsMembers then
    match ← onWorld ((← objects).select owner name) with
    | some v => pushValue v
    | none => throw (.unknownMember owner.typeName name)
  else
    match ← onWorld (Selector.selectFirst (some owner) name (← selectors)) with
    | some (.int index) =>
      if owner.isIndexed then listElement owner index else pushValue (.int index)
    | some v => pushValue v
    | none => throw (.unknownMember owner.typeName name)

/-- Pushes the value of a name, on its own or as a member. -/
def selectValue (owner? : Option ObjectRef) (name : String) : EvalM σ ValueInfo :=
  match owner? with
  | none => selectName name
  | some owner => selectMember owner name

/-- Pushes what the right side of a `.` stands for. -/
def memberOf (owner : ObjectRef) : Node → EvalM σ ValueInfo
  | .ident name => selectMember owner name
  | .int index => listElement owner index
  | _ => throw .invalidMemberOperand

/-- Writes to an object that owns its members, or else to the first selector that accepts it, and
pushes the value that was written. -/
def assignValue (owner? : Option ObjectRef) (name : String) (v : Value) : EvalM σ ValueInfo := do
  let viaSelectors := do onWorld (Selector.assignFirst owner? name v (← selectors))
  let accepted ← match owner? with
    | some owner =>
      if owner.ownsMembers then onWorld ((← objects).assign owner name v) else viaSelectors
    | none => viaSelectors
  if accepted then pushValue v else throw (.unassignableIdentifier name)

/-- The object that stands left of a `.`. -/
def memberOwner : Value → EvalM σ ObjectRef
  | .object owner => pure owner
  | .null => throw .nullReference
  | v => throw (.invalidMemberOwner v.kind)

/-! ## Values of a wanted kind

The value on top is popped in any case; one of another kind is an error.
-/

def popInt (info : ValueInfo) : EvalM σ Int32 :=
  match info.kind with
  | .int => popScalar Int32
  | found => do
    removeTop info
    throw (.typeMismatch .int found)

/-- Pops the value on top as a float; an integer is made one. -/
def popFloat (info : ValueInfo) : EvalM σ Binary32 :=
  match info.kind with
  | .float => popScalar Binary32
  | .int => return promote (← popScalar Int32)
  | found => do
    removeTop info
    throw (.typeMismatch .float found)

def popBool (info : ValueInfo) : EvalM σ Bool :=
  match info.kind with
  | .bool => popScalar Bool
  | found => do
    removeTop info
    throw (.typeMismatch .bool found)

def popString (info : ValueInfo) : EvalM σ String := do
  match ← popValue info with
  | .str v => return v
  | v => throw (.typeMismatch .string v.kind)

def popObject (info : ValueInfo) : EvalM σ ObjectRef := do
  match ← popValue info with
  | .object v => return v
  | .null => throw .nullReference
  | v => throw (.typeMismatch .object v.kind)

/-! ## Lists -/

/-- Pops the value on top as an element of a list of a kind; lists of floats take integers too. -/
def popElement (element : Kind) (info : ValueInfo) : EvalM σ Value :=
  match element with
  | .int => return .int (← popInt info)
  | .float => return .float (← popFloat info)
  | .bool => return .bool (← popBool info)
  | .string => return .str (← popString info)
  | .object | .void => popValue info

def pushList (element : Kind) (items : List Value) : EvalM σ ValueInfo := do
  let identity ← onWorld World.fresh
  let element := if element = .void then .object else element
  pushValue (.object (.ofList identity element items))

end EvalM

open EvalM

/-- The operand that decides `&&` or `||` on its own, as the result that it decides. -/
def decided? : Op → Value → Option Bool
  | .and, .bool false => some false
  | .or, .bool true => some true
  | _, _ => none

/-- Whether a value can be assigned to the expression. -/
def Node.isTarget : Node → Bool
  | .ident _ => true
  | .apply .member [_, .ident _] => true
  | _ => false

/-- Whether the expression is written as a field of a new object has to be. -/
def Node.isField : Node → Bool
  | .apply .assign [.ident _, _] => true
  | _ => false

mutual

/-- Evaluates an expression and tells where its value stands. -/
def eval {σ : Type} : Node → EvalM σ ValueInfo
  | .int v => pushValue (.int v)
  | .float v => pushValue (.float v)
  | .bool v => pushValue (.bool v)
  | .str v => pushValue (.str v)
  | .null => pushValue .null
  | .object v => pushValue (.object v)
  | .ident name => selectName name
  | .list element items => do
    pushList element (← evalItems element items)
  | .construct typeName fields => do
    if typeName = "" then throw .missingObjectType
    match (← read).initializers.find? typeName with
    | none => throw (.unknownObjectType typeName)
    | some initializer =>
      let object ← onWorld initializer.create
      let object ← evalFields initializer object fields
      pushValue (.object object)
  | .apply op operands =>
    if operands.length ≠ op.arity then throw (.invalidArity op operands.length)
    else match op, operands with
      | .ternary, [condition, yes, no] => do
        let info ← eval condition
        if info.kind = .bool then
          if ← popScalar Bool then eval yes else eval no
        else
          removeTop info
          throw (.ternaryCondition info.kind)
      | .member, [owner, member] => do
        let owner ← memberOwner (← popped (eval owner))
        memberOf owner member
      | .assign, [.ident name, right] => do
        let v ← popped (eval right)
        assignValue none name v
      | .assign, [.apply .member [owner, .ident name], right] => do
        let owner ← memberOwner (← popped (eval owner))
        let v ← popped (eval right)
        assignValue (some owner) name v
      | .assign, _ => throw .invalidAssignmentTarget
      | op, [operand] => do
        let v ← popped (eval operand)
        pushValue (← ofOutcome (evaluateUnary op v))
      | op, [left, right] => do
        let a ← popped (eval left)
        match decided? op a with
        | some b => pushValue (.bool b)
        | none =>
          let b ← popped (eval right)
          pushValue (← onWorldExcept (evaluateBinary (← objects) op a b))
      | op, operands => throw (.invalidArity op operands.length)

/-- Evaluates the elements of a list of a kind. -/
def evalItems {σ : Type} (element : Kind) : List Node → EvalM σ (List Value)
  | [] => pure []
  | n :: ns => do
    let v ← popElement element (← eval n)
    let vs ← evalItems element ns
    return v :: vs

/-- Evaluates the fields of a new object, each of which must be written as an assignment to a name,
and sets them as they come. -/
def evalFields {σ : Type} (initializer : Initializer σ) : ObjectRef → List Node → EvalM σ ObjectRef
  | object, [] => pure object
  | object, .apply .assign [.ident name, right] :: ns => do
    let v ← popped (eval right)
    let object ← onWorldExcept (initializer.setField object name v)
    evalFields initializer object ns
  | _, _ :: _ => throw .invalidFieldInit

end

/-! ## Each operation on its own -/

section

variable {σ : Type}

theorem Node.isTarget_eq_false {n : Node} (hident : ∀ name, n ≠ .ident name)
    (hmember : ∀ owner name, n ≠ .apply .member [owner, .ident name]) : n.isTarget = false := by
  unfold isTarget
  split
  · exact (hident _ rfl).elim
  · exact (hmember _ _ rfl).elim
  · rfl

/-- The only operation that can be assigned to is a member with a name. -/
theorem Node.isTarget_apply_iff {op : Op} {operands : List Node} :
    (Node.apply op operands).isTarget = true ↔
      op = .member ∧ ∃ owner name, operands = [owner, .ident name] := by
  constructor
  · intro h
    unfold isTarget at h
    split at h
    · contradiction
    · next heq =>
      cases heq
      exact ⟨rfl, _, _, rfl⟩
    · cases h
  · rintro ⟨rfl, owner, name, rfl⟩
    rfl

/-- A field is the assignment of an expression to a name. -/
theorem Node.isField_iff {n : Node} :
    n.isField = true ↔ ∃ name right, n = .apply .assign [.ident name, right] := by
  constructor
  · intro h
    unfold isField at h
    split at h
    · exact ⟨_, _, rfl⟩
    · cases h
  · rintro ⟨name, right, rfl⟩
    rfl

/-- There are one, two or three operands, and three only for `?`. -/
theorem Op.operands_cases {op : Op} {operands : List Node} (h : operands.length = op.arity) :
    (∃ operand, operands = [operand]) ∨ (∃ left right, operands = [left, right]) ∨
      (op = .ternary ∧ ∃ condition yes no, operands = [condition, yes, no]) := by
  match operands with
  | [operand] => exact .inl ⟨operand, rfl⟩
  | [left, right] => exact .inr (.inl ⟨left, right, rfl⟩)
  | [condition, yes, no] =>
    have hop : op = .ternary := by
      cases op <;> first | rfl | cases h
    exact .inr (.inr ⟨hop, condition, yes, no, rfl⟩)
  | [] => cases op <;> cases h
  | _ :: _ :: _ :: _ :: _ => cases op <;> simp [Op.arity] at h

/-- Two operands that are no assignment to a name or a member have no target on the left. -/
theorem Node.exists_not_isTarget {operands : List Node}
    (harity : operands.length = Op.assign.arity)
    (hident : ∀ name right, operands ≠ [.ident name, right])
    (hmember : ∀ owner name right, operands ≠ [.apply .member [owner, .ident name], right]) :
    ∃ target right, operands = [target, right] ∧ target.isTarget = false := by
  rcases Op.operands_cases harity with ⟨operand, rfl⟩ | ⟨target, right, rfl⟩ | ⟨hop, -⟩
  · cases harity
  · refine ⟨target, right, rfl, Node.isTarget_eq_false ?_ ?_⟩
    · intro name h
      exact hident name right (by rw [h])
    · intro owner name h
      exact hmember owner name right (by rw [h])
  · cases hop

/-- An operation with the wrong number of operands fails before any of them is looked at. -/
theorem eval_apply_of_length_ne {op : Op} {operands : List Node} (h : operands.length ≠ op.arity) :
    (eval (.apply op operands) : EvalM σ ValueInfo)
      = throw (.invalidArity op operands.length) := by
  rw [eval.eq_def]
  simp only [h, ne_eq, not_false_eq_true, if_true]

/-- Only one of the two branches of a choice is evaluated. -/
theorem eval_ternary (condition yes no : Node) :
    (eval (.apply .ternary [condition, yes, no]) : EvalM σ ValueInfo) = (do
      let info ← eval condition
      if info.kind = .bool then
        if ← popScalar Bool then eval yes else eval no
      else
        removeTop info
        throw (.ternaryCondition info.kind)) := by
  rw [eval]
  rfl

/-- The owner of a member is evaluated; what stands right of the `.` is not. -/
theorem eval_member (owner member : Node) :
    (eval (.apply .member [owner, member]) : EvalM σ ValueInfo) = (do
      let owner ← memberOwner (← popped (eval owner))
      memberOf owner member) := by
  rw [eval]
  rfl

theorem eval_assign_ident (name : String) (right : Node) :
    (eval (.apply .assign [.ident name, right]) : EvalM σ ValueInfo) = (do
      let v ← popped (eval right)
      assignValue none name v) := by
  rw [eval]
  rfl

/-- The owner of a member that is assigned to comes first. -/
theorem eval_assign_member (owner : Node) (name : String) (right : Node) :
    (eval (.apply .assign [.apply .member [owner, .ident name], right]) : EvalM σ ValueInfo)
      = (do
        let owner ← memberOwner (← popped (eval owner))
        let v ← popped (eval right)
        assignValue (some owner) name v) := by
  rw [eval]
  rfl

/-- Assigning to anything else fails before the right side is looked at. -/
theorem eval_assign_of_not_isTarget {target right : Node} (h : target.isTarget = false) :
    (eval (.apply .assign [target, right]) : EvalM σ ValueInfo)
      = throw .invalidAssignmentTarget := by
  rw [eval]
  · rfl
  · rintro name _ ⟨⟩
    cases h
  · rintro owner name _ ⟨⟩
    cases h

theorem eval_unary {op : Op} (h : op.arity = 1) (operand : Node) :
    (eval (.apply op [operand]) : EvalM σ ValueInfo) = (do
      let v ← popped (eval operand)
      pushValue (← ofOutcome (evaluateUnary op v))) := by
  rw [eval]
  · rw [if_neg (by simp [h])]
  · rintro rfl
    cases h

/-- The right operand is evaluated only if the left one leaves the result open. -/
theorem eval_binary {op : Op} (h : op.arity = 2) (hmember : op ≠ .member) (hassign : op ≠ .assign)
    (left right : Node) :
    (eval (.apply op [left, right]) : EvalM σ ValueInfo) = (do
      let a ← popped (eval left)
      match decided? op a with
      | some b => pushValue (.bool b)
      | none =>
        let b ← popped (eval right)
        pushValue (← onWorldExcept (evaluateBinary (← objects) op a b))) := by
  rw [eval]
  · rw [if_neg (by simp [h])]
  · exact hmember
  · exact fun _ h _ => hassign h
  · exact fun _ _ h _ => hassign h
  · exact hassign

/-- A field that is none fails, and none behind it is looked at. -/
theorem evalFields_of_not_isField {initializer : Initializer σ} {n : Node}
    (h : n.isField = false) (object : ObjectRef) (ns : List Node) :
    evalFields initializer object (n :: ns) = throw .invalidFieldInit := by
  rw [evalFields]
  rintro name right rfl
  cases h

end

/-! ## Values and what they are wanted as -/

section

variable {σ : Type}

/-- Evaluates an expression and pops its value. -/
def evalValue (n : Node) : EvalM σ Value := popped (eval n)

def evalInt (n : Node) : EvalM σ Int32 := do
  popInt (← eval n)

/-- Evaluates an expression to a float; an integer is made one. -/
def evalFloat (n : Node) : EvalM σ Binary32 := do
  popFloat (← eval n)

def evalBool (n : Node) : EvalM σ Bool := do
  popBool (← eval n)

def evalString (n : Node) : EvalM σ String := do
  popString (← eval n)

/-- Evaluates an expression to its string form, whatever its kind. -/
def evalText (n : Node) : EvalM σ String := do
  popText (← eval n)

def evalObject (n : Node) : EvalM σ ObjectRef := do
  popObject (← eval n)

end

/-! ## Constant folding

An operation whose operands are literals, once these are folded themselves, is evaluated at once and
replaced by the literal of its value.  Lists and new objects stay as they are, with their parts
folded, and so does an operation without a value.  An error in a part that is evaluated at once is
an error of the whole; the stack ends as it began in any case.
-/

/-- The literal of an expression's value, or the expression itself if its value is `void`. -/
def foldLiteral {σ : Type} (n : Node) : EvalM σ Node := do
  return (Node.ofValue? (← restoring (evalValue n))).getD n

mutual

/-- The expression with every operation on literals replaced by its value. -/
def fold {σ : Type} : Node → EvalM σ Node
  | .apply op operands => do
    let operands ← foldAll operands
    let n := Node.apply op operands
    if operands.all Node.isLiteral then foldLiteral n else return n
  | .list element items => do
    return .list element (← foldAll items)
  | .construct typeName fields => do
    return .construct typeName (← foldAll fields)
  | n => pure n

def foldAll {σ : Type} : List Node → EvalM σ (List Node)
  | [] => pure []
  | n :: ns => do
    let n ← fold n
    let ns ← foldAll ns
    return n :: ns

end

/-! ## Induction over the constructs of the language

Evaluation tells more constructs apart than there are kinds of trees: an operation may have the
wrong number of operands, an assignment may have a target or none, and the fields of a new object
are read in a way of their own.  `Node.inductionOn` has one named case for each construct, with the
hypotheses that the equation of the construct asks for.
-/

/-- A literal pushes its value. -/
theorem eval_of_literal? {σ : Type} {n : Node} {v : Value} (h : n.literal? = some v) :
    (eval n : EvalM σ ValueInfo) = EvalM.pushValue v := by
  cases n <;> cases h <;> rw [eval]

/-- A statement about all expressions, with one case for each construct that evaluation tells
apart.  `motive_2` is what holds of the fields of a new object, `motive_3` what holds of the
elements of a list. -/
theorem Node.inductionOn {motive : Node → Prop} {motive_2 motive_3 : List Node → Prop}
    (literal : ∀ n v, n.literal? = some v → motive n)
    (ident : ∀ name, motive (.ident name))
    (list : ∀ element ns, motive_3 ns → motive (.list element ns))
    (construct : ∀ typeName ns, motive_2 ns → motive (.construct typeName ns))
    (wrongArity : ∀ op operands, operands.length ≠ op.arity → motive (.apply op operands))
    (ternary : ∀ condition yes no, motive condition → motive yes → motive no →
      motive (.apply .ternary [condition, yes, no]))
    (member : ∀ owner member, motive owner → motive (.apply .member [owner, member]))
    (assignIdent : ∀ name right, motive right → motive (.apply .assign [.ident name, right]))
    (assignMember : ∀ owner name right, motive owner → motive right →
      motive (.apply .assign [.apply .member [owner, .ident name], right]))
    (assignOther : ∀ target right, target.isTarget = false →
      motive (.apply .assign [target, right]))
    (unary : ∀ op operand, op.arity = 1 → motive operand → motive (.apply op [operand]))
    (binary : ∀ op left right, op.arity = 2 → op ≠ .member → op ≠ .assign →
      motive left → motive right → motive (.apply op [left, right]))
    (noField : motive_2 [])
    (field : ∀ name right ns, motive right → motive_2 ns →
      motive_2 (.apply .assign [.ident name, right] :: ns))
    (otherField : ∀ n ns, n.isField = false → motive_2 (n :: ns))
    (noItem : motive_3 [])
    (item : ∀ n ns, motive n → motive_3 ns → motive_3 (n :: ns))
    (n : Node) : motive n := by
  -- What holds of fields must hold for any initializer, so one at random does.
  have blank : ObjectRef := .ofList 0 .object []
  have maker : Initializer Unit := ⟨pure blank, fun made _ _ => pure made⟩
  -- The recursion of `eval` has these cases, but for the operations, which it reads in sequence.
  induction n using eval.induct (σ := Unit) (motive_2 := fun _ _ ns => motive_2 ns)
    (motive_3 := fun _ ns => motive_3 ns)
  with
  | case1 v | case2 v | case3 v | case4 v | case5 | case6 v => exact literal _ _ rfl
  | case7 name => exact ident name
  | case8 element ns ih => exact list element ns ih
  | case9 ns ih => exact construct "" ns (ih maker blank)
  | case10 typeName ns _ ih => exact construct typeName ns (ih maker blank)
  | case11 op operands harity => exact wrongArity op operands harity
  | case12 condition yes no _ hcondition hyes hno =>
    exact ternary condition yes no hcondition hyes hno
  | case13 owner right _ howner => exact member owner right howner
  | case14 name right _ hright => exact assignIdent name right hright
  | case15 owner name right _ howner hright => exact assignMember owner name right howner hright
  | case16 operands hident hmember harity =>
    rcases Node.exists_not_isTarget (Classical.not_not.mp harity) hident hmember with
      ⟨target, right, rfl, htarget⟩
    exact assignOther target right htarget
  | case17 op operand _ harity hoperand =>
    exact unary op operand (Classical.not_not.mp harity).symm hoperand
  | case18 op left right hmember _ _ hassign harity hleft hright =>
    exact binary op left right (Classical.not_not.mp harity).symm hmember hassign hleft hright
  | case19 op operands hternary _ _ _ _ hone htwo harity =>
    -- The cases before have taken all operands that there can be.
    rcases Op.operands_cases (Classical.not_not.mp harity) with
      ⟨a, rfl⟩ | ⟨a, b, rfl⟩ | ⟨rfl, a, b, c, rfl⟩
    · exact (hone a rfl).elim
    · exact (htwo a b rfl).elim
    · exact (hternary a b c rfl rfl).elim
  | case20 => exact noField
  | case21 _ _ name right ns hright hrest => exact field name right ns hright (hrest blank)
  | case22 _ _ n ns hfield =>
    refine otherField n ns (Bool.eq_false_iff.mpr fun h => ?_)
    rcases Node.isField_iff.mp h with ⟨name, right, rfl⟩
    exact hfield name right rfl
  | case23 => exact noItem
  | case24 _ n ns hn hns => exact item n ns hn hns

end Edict
