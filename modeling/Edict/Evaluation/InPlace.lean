import Edict.Evaluation.Arena

/-! # A stack that is changed in place

The operations on a stack as steps on its memory, one access at a time.  What a step has changed
stays changed if a later one fails.  An access outside of memory, a difference below zero and a sum
that is no count end the program; nothing but the steps themselves keeps them from that.
-/

namespace Edict

/-- The memory of a stack.  The bytes below `top` are live, if there are so many. -/
structure Memory where
  slots : Nat
  cells : List UInt8
  top : Nat
  objects : List Value

namespace Memory

def ofSize (size : StackSize) : Memory :=
  ⟨size.objectSlots, List.replicate (min size.arenaBytes Stack.maxCapacity) 0, 0, []⟩

def live (m : Memory) : Stack := ⟨m.cells.length, m.slots, m.cells.take m.top, m.objects⟩

end Memory

/-- Why an operation ends early. -/
inductive Halt where
  /-- It has an error for its caller, and the program goes on. -/
  | refused (e : CapacityError)
  /-- It has stepped out of bounds, and the program ends. -/
  | trapped

/-- Steps on the memory of a stack. -/
abbrev InPlace (α : Type) : Type := ExceptT Halt (StateM Memory) α

namespace InPlace

variable {α : Type}

def refuse (e : CapacityError) : InPlace α := throw (.refused e)

def trap : InPlace α := throw .trapped

/-! ## Counts -/

/-- Counts have 64 bits. -/
def countLimit : Nat := 18446744073709551616

/-- The sum, if it is a count. -/
def sum? (a b : Nat) : Option Nat := if a + b < countLimit then some (a + b) else none

/-- The difference, if it is a count. -/
def difference? (a b : Nat) : Option Nat := if b ≤ a then some (a - b) else none

def add (a b : Nat) : InPlace Nat := if a + b < countLimit then pure (a + b) else trap

def subtract (a b : Nat) : InPlace Nat := if b ≤ a then pure (a - b) else trap

/-- The largest offset that can be told: offsets are 32-bit integers. -/
def largestOffset : Nat := 2147483647

/-- The offset of a place as it is told, which is the largest one if the place lies beyond that. -/
def offsetOf (place : Nat) : Nat := min place largestOffset

/-! ## Bytes -/

/-- The value that the bytes from `start` up to `stop` make.  They must be as many as it takes. -/
def read (α : Type) [Scalar α] (start stop : Nat) : InPlace α := do
  let m ← get
  if start ≤ stop ∧ stop ≤ m.cells.length ∧ stop - start = Scalar.size α then
    return Scalar.decode ((m.cells.drop start).take (stop - start))
  else trap

/-- Writes a value over the bytes from `start` up to `stop`.  It must take as many. -/
def write [Scalar α] (start stop : Nat) (v : α) : InPlace Unit := do
  let m ← get
  if start ≤ stop ∧ stop ≤ m.cells.length ∧ (Scalar.encode v).length = stop - start then
    set { m with cells := m.cells.take start ++ Scalar.encode v ++ m.cells.drop stop }
  else trap

/-- Where `size` more bytes end above the top. -/
def reserve (size : Nat) : InPlace Nat := do
  let m ← get
  let available ← subtract m.cells.length m.top
  match (sum? m.top size).filter (· ≤ m.cells.length) with
  | some stop => return stop
  | none => refuse (.arenaOverflow size available m.cells.length)

/-- Where `size` live bytes at an offset start. -/
def liveStart (offset : Int) (size : Nat) : InPlace Nat := do
  let m ← get
  if 0 ≤ offset then
    match (sum? offset.toNat size).filter (· ≤ m.top) with
    | some _ => return offset.toNat
    | none => refuse (.invalidOffset offset m.top)
  else refuse (.invalidOffset offset m.top)

/-! ## Operations -/

def push [Scalar α] (v : α) : InPlace Nat := do
  let m ← get
  let stop ← reserve (Scalar.size α)
  write m.top stop v
  modify ({ · with top := stop })
  return offsetOf m.top

def pop (α : Type) [Scalar α] : InPlace α := do
  let m ← get
  match difference? m.top (Scalar.size α) with
  | some start =>
    let v ← read α start m.top
    modify ({ · with top := start })
    return v
  | none => refuse (.underflow (Scalar.size α) m.top)

def peek (α : Type) [Scalar α] (offset : Int) : InPlace α := do
  let start ← liveStart offset (Scalar.size α)
  let stop ← add start (Scalar.size α)
  read α start stop

def pushObject (v : Value) : InPlace Nat := do
  let m ← get
  if m.slots ≤ m.objects.length then refuse (.objectTableOverflow m.slots)
  else if Stack.maxObjects ≤ m.objects.length then refuse (.objectTableOverflow m.slots)
  else
    let offset ← push (UInt32.ofNat m.objects.length)
    modify fun m => { m with objects := m.objects ++ [v] }
    return offset

/-- Pops the newest object.  The newest bytes must hold its number. -/
def popObject : InPlace Value := do
  let m ← get
  match difference? m.top (Scalar.size UInt32) with
  | some start =>
    let stored ← read UInt32 start m.top
    if difference? m.objects.length 1 = some stored.toNat then
      match m.objects.getLast? with
      | some v =>
        modify fun m => { m with objects := m.objects.dropLast }
        modify ({ · with top := start })
        return v
      | none => refuse (.objectIndexMismatch stored.toNat m.objects.length)
    else refuse (.objectIndexMismatch stored.toNat m.objects.length)
  | none => refuse (.underflow (Scalar.size UInt32) m.top)

def peekObject (offset : Int) : InPlace Value := do
  let index ← peek UInt32 offset
  let m ← get
  match m.objects[index.toNat]? with
  | some v => return v
  | none => refuse (.invalidOffset offset m.top)

def clear : InPlace Unit := do
  modify ({ · with top := 0 })
  modify ({ · with objects := [] })

def mark : InPlace Stack.Mark := do
  let m ← get
  return ⟨m.top, m.objects.length⟩

/-- Drops what was pushed since the mark was taken.  A mark above the top is ignored. -/
def resetTo (height : Stack.Mark) : InPlace Unit := do
  let m ← get
  if height.bytes ≤ m.top then
    modify ({ · with top := height.bytes })
    modify fun m => { m with objects := m.objects.take height.objects }

end InPlace

end Edict
