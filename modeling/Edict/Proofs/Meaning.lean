import Edict.Evaluation.Eval
import Edict.Outcome

namespace Edict

/-! # What expressions mean, without a stack

`Node.meaning` is an interpreter that works on values alone: it keeps nothing but the world of the
host, so there is nothing in it that could run out.  Literals mean themselves, and everything else
means what its parts mean, taken together in the order in which they are evaluated.
-/

/-! ## Actions of the host alone -/

/-- What an expression asks of the host, and what comes of it. -/
abbrev HostM (σ : Type) (α : Type) : Type :=
  ReaderT (Scope σ) (ExceptT EvalError (StateM (World σ))) α

namespace HostM

variable {σ α : Type}

/-- Runs an action: its outcome and the world that it leaves behind. -/
def perform (act : HostM σ α) (scope : Scope σ) (w : World σ) : Except EvalError α × World σ :=
  ((act.run scope).run).run w

/-- An answer of the host. -/
def ask (f : StateM (World σ) α) : HostM σ α :=
  fun _ w =>
    let (a, w') := f w
    (.ok a, w')

/-- An answer of the host that may be an error. -/
def askExcept (f : ExceptT EvalError (StateM (World σ)) α) : HostM σ α := fun _ w => f w

def ofOutcome (outcome : Except EvalError α) : HostM σ α := fun _ w => (outcome, w)

def selectors : HostM σ (List (Selector σ)) := do
  return (← read).selectors.map (·.2)

def objects : HostM σ (Objects σ) := do
  return (← read).objects

theorem perform_bind {β : Type} (act : HostM σ α) (next : α → HostM σ β) (scope : Scope σ)
    (w : World σ) :
    (act >>= next).perform scope w = match act.perform scope w with
      | (.ok a, w') => (next a).perform scope w'
      | (.error e, w') => (.error e, w') := by
  have hact : (act scope).run w = act.perform scope w := rfl
  have hrun := run_bind (act scope) (fun a => next a scope) w
  rw [hact] at hrun
  refine hrun.trans ?_
  rcases act.perform scope w with ⟨e | a, w'⟩
  · rfl
  · rfl

end HostM

/-! ## Values and what they are wanted as -/

namespace Value

/-- The object that stands left of a `.`. -/
def asOwner : Value → Except EvalError ObjectRef
  | object owner => .ok owner
  | null => .error .nullReference
  | v => .error (.invalidMemberOwner v.kind)

def asInt : Value → Except EvalError Int32
  | int v => .ok v
  | v => .error (.typeMismatch .int v.kind)

def asFloat : Value → Except EvalError Binary32
  | float v => .ok v
  | int v => .ok (promote v)
  | v => .error (.typeMismatch .float v.kind)

def asBool : Value → Except EvalError Bool
  | bool v => .ok v
  | v => .error (.typeMismatch .bool v.kind)

def asString : Value → Except EvalError String
  | str v => .ok v
  | v => .error (.typeMismatch .string v.kind)

/-- The value as an element of a list of a kind; lists of floats take integers too. -/
def asElement (element : Kind) (v : Value) : Except EvalError Value :=
  match element with
  | .int => v.asInt.map int
  | .float => v.asFloat.map float
  | .bool => v.asBool.map bool
  | .string => v.asString.map str
  | .object | .void => .ok v

end Value

/-! ## Names and members -/

namespace HostM

variable {σ : Type}

def name (name : String) : HostM σ Value := do
  match ← ask (Selector.selectFirst none name (← selectors)) with
  | some v => return v
  | none => throw (.undefinedIdentifier name)

def element (owner : ObjectRef) (index : Int32) : HostM σ Value := do
  askExcept ((← objects).element owner index)

/-- The number of elements, or what the object answers for a member of its own, or else what the
selectors answer, where an integer means an element of an object that has elements. -/
def member (owner : ObjectRef) (name : String) : HostM σ Value := do
  if name = "Count" ∧ owner.isIndexed then
    return EvalM.countValue (← ask ((← objects).count owner))
  else if owner.ownsMembers then
    match ← ask ((← objects).select owner name) with
    | some v => return v
    | none => throw (.unknownMember owner.typeName name)
  else
    match ← ask (Selector.selectFirst (some owner) name (← selectors)) with
    | some (.int index) => if owner.isIndexed then element owner index else return .int index
    | some v => return v
    | none => throw (.unknownMember owner.typeName name)

/-- What the right side of a `.` stands for. -/
def memberOf (owner : ObjectRef) : Node → HostM σ Value
  | .ident name => member owner name
  | .int index => element owner index
  | _ => throw .invalidMemberOperand

/-- Offers an assignment to an object that owns its members, or else to the selectors in turn, and
tells whether it was accepted. -/
def offer (owner? : Option ObjectRef) (name : String) (v : Value) : HostM σ Bool := do
  match owner?.filter (·.ownsMembers) with
  | some owner => ask ((← objects).assign owner name v)
  | none => ask (Selector.assignFirst owner? name v (← selectors))

/-- The value that was written. -/
def assign (owner? : Option ObjectRef) (name : String) (v : Value) : HostM σ Value := do
  if ← offer owner? name v then return v else throw (.unassignableIdentifier name)

def newList (element : Kind) (items : List Value) : HostM σ Value := do
  let identity ← ask World.fresh
  return .object (.ofList identity (if element = .void then .object else element) items)

end HostM

/-! ## Expressions -/

open HostM

mutual

/-- The value of an expression.  Operands are evaluated from left to right, the right one of `&&`
and `||` only if the left one does not decide, and of the branches of `?` only the one that is
chosen. -/
def Node.meaning {σ : Type} : Node → HostM σ Value
  | .int v => return .int v
  | .float v => return .float v
  | .bool v => return .bool v
  | .str v => return .str v
  | .null => return .null
  | .object v => return .object v
  | .ident name => HostM.name name
  | .list element items => do
    newList element (← Node.meanings element items)
  | .construct typeName fields => do
    if typeName = "" then throw .missingObjectType
    match (← read).initializers.find? typeName with
    | none => throw (.unknownObjectType typeName)
    | some initializer =>
      let blank ← ask initializer.create
      return .object (← Node.fill initializer blank fields)
  | .apply op operands =>
    if operands.length ≠ op.arity then throw (.invalidArity op operands.length)
    else match op, operands with
      | .ternary, [condition, yes, no] => do
        match ← condition.meaning with
        | .bool true => yes.meaning
        | .bool false => no.meaning
        | v => throw (.ternaryCondition v.kind)
      | .member, [owner, member] => do
        let owner ← ofOutcome (← owner.meaning).asOwner
        HostM.memberOf owner member
      | .assign, [.ident name, right] => do
        HostM.assign none name (← right.meaning)
      | .assign, [.apply .member [owner, .ident name], right] => do
        let owner ← ofOutcome (← owner.meaning).asOwner
        HostM.assign (some owner) name (← right.meaning)
      | .assign, _ => throw .invalidAssignmentTarget
      | op, [operand] => do
        ofOutcome (evaluateUnary op (← operand.meaning))
      | op, [left, right] => do
        let a ← left.meaning
        match decided? op a with
        | some b => return .bool b
        | none =>
          let b ← right.meaning
          askExcept (evaluateBinary (← objects) op a b)
      | op, operands => throw (.invalidArity op operands.length)

/-- The values of the elements of a list of a kind, in order. -/
def Node.meanings {σ : Type} (element : Kind) : List Node → HostM σ (List Value)
  | [] => return []
  | n :: ns => do
    let v ← ofOutcome ((← n.meaning).asElement element)
    return v :: (← Node.meanings element ns)

/-- A new object with its fields set, in order. -/
def Node.fill {σ : Type} (initializer : Initializer σ) :
    ObjectRef → List Node → HostM σ ObjectRef
  | made, [] => return made
  | made, .apply .assign [.ident name, right] :: ns => do
    let v ← right.meaning
    Node.fill initializer (← askExcept (initializer.setField made name v)) ns
  | _, _ :: _ => throw .invalidFieldInit

end

/-! ### Each construct on its own -/

section

variable {σ : Type}

theorem Node.meaning_of_literal? {n : Node} {v : Value} (h : n.literal? = some v) :
    (n.meaning : HostM σ Value) = pure v := by
  cases n <;> cases h <;> rw [Node.meaning]

theorem Node.meaning_of_length_ne {op : Op} {operands : List Node}
    (h : operands.length ≠ op.arity) :
    ((Node.apply op operands).meaning : HostM σ Value)
      = throw (.invalidArity op operands.length) := by
  rw [Node.meaning.eq_def]
  simp only [h, ne_eq, not_false_eq_true, if_true]

theorem Node.meaning_ternary (condition yes no : Node) :
    ((Node.apply .ternary [condition, yes, no]).meaning : HostM σ Value) = (do
      match ← condition.meaning with
      | .bool true => yes.meaning
      | .bool false => no.meaning
      | v => throw (.ternaryCondition v.kind)) := by
  rw [Node.meaning]
  rfl

theorem Node.meaning_member (owner member : Node) :
    ((Node.apply .member [owner, member]).meaning : HostM σ Value) = (do
      let owner ← HostM.ofOutcome (← owner.meaning).asOwner
      HostM.memberOf owner member) := by
  rw [Node.meaning]
  rfl

theorem Node.meaning_assign_ident (name : String) (right : Node) :
    ((Node.apply .assign [.ident name, right]).meaning : HostM σ Value) = (do
      HostM.assign none name (← right.meaning)) := by
  rw [Node.meaning]
  rfl

theorem Node.meaning_assign_member (owner : Node) (name : String) (right : Node) :
    ((Node.apply .assign [.apply .member [owner, .ident name], right]).meaning : HostM σ Value)
      = (do
        let owner ← HostM.ofOutcome (← owner.meaning).asOwner
        HostM.assign (some owner) name (← right.meaning)) := by
  rw [Node.meaning]
  rfl

theorem Node.meaning_assign_of_not_isTarget {target right : Node} (h : target.isTarget = false) :
    ((Node.apply .assign [target, right]).meaning : HostM σ Value)
      = throw .invalidAssignmentTarget := by
  rw [Node.meaning]
  · rfl
  · rintro name _ ⟨⟩
    cases h
  · rintro owner name _ ⟨⟩
    cases h

theorem Node.meaning_unary {op : Op} (h : op.arity = 1) (operand : Node) :
    ((Node.apply op [operand]).meaning : HostM σ Value) = (do
      HostM.ofOutcome (evaluateUnary op (← operand.meaning))) := by
  rw [Node.meaning]
  · rw [if_neg (by simp [h])]
  · rintro rfl
    cases h

theorem Node.meaning_binary {op : Op} (h : op.arity = 2) (hmember : op ≠ .member)
    (hassign : op ≠ .assign) (left right : Node) :
    ((Node.apply op [left, right]).meaning : HostM σ Value) = (do
      let a ← left.meaning
      match decided? op a with
      | some b => return .bool b
      | none =>
        let b ← right.meaning
        HostM.askExcept (evaluateBinary (← HostM.objects) op a b)) := by
  rw [Node.meaning]
  · rw [if_neg (by simp [h])]
  · exact hmember
  · exact fun _ h _ => hassign h
  · exact fun _ _ h _ => hassign h
  · exact hassign

theorem Node.fill_of_not_isField {initializer : Initializer σ} {n : Node}
    (h : n.isField = false) (made : ObjectRef) (ns : List Node) :
    Node.fill initializer made (n :: ns) = throw .invalidFieldInit := by
  rw [Node.fill]
  rintro name right rfl
  cases h

end

end Edict
