import Edict.Evaluation.Error
import Edict.Outcome
import Edict.Table
import Edict.Value

/-! # What the host provides

Instruction text declares nothing: names, objects and the types of new objects get their meaning
from the host.  A host keeps a state of its own, of any type, and each of its answers may read and
change it.  So an object may have another string form, other members and other elements each time
that it is asked.
-/

namespace Edict

/-- The state of the host, and the number that the next object gets. -/
structure World (σ : Type) where
  state : σ
  nextIdentity : Nat
deriving Inhabited

/-- A number that no object has yet. -/
def World.fresh {σ : Type} : StateM (World σ) Nat :=
  fun w => (w.nextIdentity, { w with nextIdentity := w.nextIdentity + 1 })

/-- How a host answers for its objects. -/
structure Objects (σ : Type) where
  /-- The string form of an object. -/
  describe : ObjectRef → StateM (World σ) String := fun o => pure o.typeName
  /-- The number of elements of an object that can be indexed. -/
  length : ObjectRef → StateM (World σ) Nat := fun _ => pure 0
  /-- The element of such an object at a position, if it has one. -/
  element? : ObjectRef → Nat → StateM (World σ) (Option Value) := fun _ _ => pure none
  /-- The member of a name of an object that owns its members, if there is one. -/
  select : ObjectRef → String → StateM (World σ) (Option Value) := fun _ _ => pure none
  /-- Writes a member of such an object and tells whether that was accepted. -/
  assign : ObjectRef → String → Value → StateM (World σ) Bool := fun _ _ _ => pure false

/-- Gives names a meaning: on their own, and as members of objects that do not own theirs. -/
structure Selector (σ : Type) where
  /-- The value of a name, if the selector knows it. -/
  select : Option ObjectRef → String → StateM (World σ) (Option Value)
  /-- Writes the value of a name and tells whether that was accepted. -/
  assign : Option ObjectRef → String → Value → StateM (World σ) Bool

/-- Makes new objects of one type. -/
structure Initializer (σ : Type) where
  /-- A new object without the values of its fields. -/
  create : StateM (World σ) ObjectRef
  /-- The object with one more field set. -/
  setField : ObjectRef → String → Value → ExceptT EvalError (StateM (World σ)) ObjectRef

structure SelectorId where
  number : UInt32
deriving DecidableEq, Repr, Inhabited

/-- Everything that gives names, members and types a meaning. -/
structure Scope (σ : Type) where
  objects : Objects σ
  /-- The selectors, the one registered last first. -/
  selectors : List (SelectorId × Selector σ)
  initializers : Table String (Initializer σ)

/-! ## Asking objects -/

namespace Objects

variable {σ : Type}

/-- The string form of an object; that of a list is the name of its type. -/
def text (host : Objects σ) (o : ObjectRef) : StateM (World σ) String :=
  match o.elements with
  | .items _ _ => pure o.typeName
  | _ => host.describe o

def count (host : Objects σ) (o : ObjectRef) : StateM (World σ) Nat :=
  match o.elements with
  | .items _ items => pure items.length
  | _ => host.length o

/-- The element of an object at an index, if it has one. -/
def at? (host : Objects σ) (o : ObjectRef) (index : Int32) : StateM (World σ) (Option Value) :=
  if 0 ≤ index.toInt then
    match o.elements with
    | .items _ items => pure items[index.toInt.toNat]?
    | _ => host.element? o index.toInt.toNat
  else pure none

/-- The element of an object at an index, which must have one there.  An object that cannot be
indexed has `void` everywhere. -/
def element (host : Objects σ) (o : ObjectRef) (index : Int32) :
    ExceptT EvalError (StateM (World σ)) Value := do
  if o.isIndexed then
    match ← host.at? o index with
    | some v => return v
    | none => throw (.indexOutOfRange index (← host.count o))
  else return .void

theorem run_element (host : Objects σ) (o : ObjectRef) (index : Int32) (w : World σ) :
    (host.element o index).run w
      = if o.isIndexed then
          match (host.at? o index).run w with
          | (some v, w') => (.ok v, w')
          | (none, w') =>
            (.error (.indexOutOfRange index ((host.count o).run w').1), ((host.count o).run w').2)
        else (.ok .void, w) := by
  unfold element
  split
  · have hasked : (liftM (host.at? o index) : ExceptT EvalError (StateM (World σ)) _).run w
        = (.ok ((host.at? o index).run w).1, ((host.at? o index).run w).2) := rfl
    rw [run_bind, hasked]
    rcases (host.at? o index).run w with ⟨_ | v, w'⟩
    · rfl
    · rfl
  · rfl

def textOf (host : Objects σ) (v : Value) : StateM (World σ) String :=
  match v with
  | .object o => host.text o
  | v => pure (v.text "")

end Objects

/-! ## Asking selectors -/

namespace Selector

variable {σ : Type}

/-- A selector that refuses every assignment. -/
def readOnly (select : Option ObjectRef → String → StateM (World σ) (Option Value)) : Selector σ :=
  ⟨select, fun _ _ _ => pure false⟩

/-- Asks the selectors one after the other for a name, until one knows it. -/
def selectFirst (owner? : Option ObjectRef) (name : String) :
    List (Selector σ) → StateM (World σ) (Option Value)
  | [] => pure none
  | s :: ss => do
    match ← s.select owner? name with
    | some v => return some v
    | none => selectFirst owner? name ss

/-- Offers an assignment to the selectors one after the other, until one accepts it. -/
def assignFirst (owner? : Option ObjectRef) (name : String) (v : Value) :
    List (Selector σ) → StateM (World σ) Bool
  | [] => pure false
  | s :: ss => do
    if ← s.assign owner? name v then return true
    else assignFirst owner? name v ss

end Selector

end Edict
