import Edict.Evaluation.Stack

/-! # The stack in memory

The bytes of a stack lie in an array whose size never changes.  Pushing writes over what is there,
and popping only lowers the height, so that bytes of values long gone stay above it.  None of them
is ever read: what can be told of the array is told by the live bytes alone, as in `Stack`
(`Arena.simulates`).
-/

namespace Edict

/-- What can be done with a stack of bytes and objects. -/
class ByteStack (S : Type) where
  push {α : Type} [Scalar α] : S → α → Except CapacityError (Nat × S)
  pop (α : Type) [Scalar α] : S → Except CapacityError (α × S)
  get (α : Type) [Scalar α] : S → Int → Except CapacityError α
  pushObject : S → Value → Except CapacityError (Nat × S)
  popObject : S → Except CapacityError (Value × S)
  getObject : S → Int → Except CapacityError Value
  clear : S → S
  mark : S → Stack.Mark
  resetTo : S → Stack.Mark → S

instance : ByteStack Stack where
  push := Stack.push
  pop := Stack.pop
  get := Stack.get
  pushObject := Stack.pushObject
  popObject := Stack.popObject
  getObject := Stack.getObject
  clear := Stack.clear
  mark := Stack.mark
  resetTo := Stack.resetTo

/-- Seen through `view`, each operation on `S` is the one on `T`: it has the same outcome and leaves
what that leaves. -/
structure ByteStack.Simulates {S T : Type} [ByteStack S] [ByteStack T] (view : S → T) : Prop where
  push {α : Type} [Scalar α] (s : S) (v : α) :
    (ByteStack.push s v).map (Prod.map id view) = ByteStack.push (view s) v
  pop (α : Type) [Scalar α] (s : S) :
    (ByteStack.pop α s).map (Prod.map id view) = ByteStack.pop α (view s)
  get (α : Type) [Scalar α] (s : S) (offset : Int) :
    ByteStack.get α s offset = ByteStack.get α (view s) offset
  pushObject (s : S) (v : Value) :
    (ByteStack.pushObject s v).map (Prod.map id view) = ByteStack.pushObject (view s) v
  popObject (s : S) :
    (ByteStack.popObject s).map (Prod.map id view) = ByteStack.popObject (view s)
  getObject (s : S) (offset : Int) :
    ByteStack.getObject s offset = ByteStack.getObject (view s) offset
  clear (s : S) : view (ByteStack.clear s) = ByteStack.clear (view s)
  mark (s : S) : ByteStack.mark s = ByteStack.mark (view s)
  resetTo (s : S) (m : Stack.Mark) :
    view (ByteStack.resetTo s m) = ByteStack.resetTo (view s) m

/-- A stack in memory: the bytes below `top` are live, those above are left over. -/
structure Arena where
  slots : Nat
  memory : List UInt8
  top : Nat
  objects : List Value
  top_le : top ≤ memory.length

namespace Arena

def ofSize (size : StackSize) : Arena :=
  ⟨size.objectSlots, List.replicate (min size.arenaBytes Stack.maxCapacity) 0, 0, [],
    Nat.zero_le _⟩

def live (a : Arena) : Stack := ⟨a.memory.length, a.slots, a.memory.take a.top, a.objects⟩

/-- Writes bytes over those above the top, which are live from then on. -/
def write (a : Arena) (bytes : List UInt8) (h : a.top + bytes.length ≤ a.memory.length) :
    Arena where
  slots := a.slots
  memory := a.memory.take a.top ++ bytes ++ a.memory.drop (a.top + bytes.length)
  top := a.top + bytes.length
  objects := a.objects
  top_le := by
    simp only [List.length_append, List.length_take, List.length_drop]
    omega

def push {α : Type} [Scalar α] (a : Arena) (v : α) : Except CapacityError (Nat × Arena) :=
  if h : a.top + (Scalar.encode v).length ≤ a.memory.length then
    .ok (a.top, a.write (Scalar.encode v) h)
  else
    .error (.arenaOverflow (Scalar.encode v).length (a.memory.length - a.top) a.memory.length)

/-- Pops a value; its bytes stay where they are. -/
def pop (α : Type) [Scalar α] (a : Arena) : Except CapacityError (α × Arena) :=
  if Scalar.size α ≤ a.top then
    .ok (Scalar.decode ((a.memory.drop (a.top - Scalar.size α)).take (Scalar.size α)),
      { a with
        top := a.top - Scalar.size α
        top_le := Nat.le_trans (Nat.sub_le _ _) a.top_le })
  else .error (.underflow (Scalar.size α) a.top)

def get (α : Type) [Scalar α] (a : Arena) (offset : Int) : Except CapacityError α :=
  if 0 ≤ offset ∧ offset.toNat + Scalar.size α ≤ a.top then
    .ok (Scalar.decode ((a.memory.drop offset.toNat).take (Scalar.size α)))
  else .error (.invalidOffset offset a.top)

def pushObject (a : Arena) (v : Value) : Except CapacityError (Nat × Arena) :=
  if a.slots ≤ a.objects.length ∨ Stack.maxObjects ≤ a.objects.length then
    .error (.objectTableOverflow a.slots)
  else do
    let (offset, a) ← a.push (UInt32.ofNat a.objects.length)
    return (offset, { a with objects := a.objects ++ [v] })

/-- Pops the newest object.  The newest bytes must hold its number. -/
def popObject (a : Arena) : Except CapacityError (Value × Arena) := do
  let (stored, below) ← a.pop UInt32
  match a.objects.getLast? with
  | some v =>
    if stored.toNat + 1 = a.objects.length then
      return (v, { below with objects := a.objects.dropLast })
    else .error (.objectIndexMismatch stored.toNat a.objects.length)
  | none => .error (.objectIndexMismatch stored.toNat a.objects.length)

def getObject (a : Arena) (offset : Int) : Except CapacityError Value := do
  let index ← a.get UInt32 offset
  match a.objects[index.toNat]? with
  | some v => .ok v
  | none => .error (.invalidOffset offset a.top)

def clear (a : Arena) : Arena := { a with top := 0, objects := [], top_le := Nat.zero_le _ }

def mark (a : Arena) : Stack.Mark := ⟨a.top, a.objects.length⟩

/-- Drops what was pushed since the mark was taken.  A mark above the top is ignored. -/
def resetTo (a : Arena) (m : Stack.Mark) : Arena :=
  if h : m.bytes ≤ a.top then
    { a with
      top := m.bytes
      objects := a.objects.take m.objects
      top_le := Nat.le_trans h a.top_le }
  else a

instance : ByteStack Arena where
  push := push
  pop := pop
  get := get
  pushObject := pushObject
  popObject := popObject
  getObject := getObject
  clear := clear
  mark := mark
  resetTo := resetTo

/-! ## Only the live part counts -/

/-- A new arena has no live bytes. -/
theorem live_ofSize (size : StackSize) : (ofSize size).live = Stack.ofSize size := by
  simp [live, ofSize, Stack.ofSize]

@[simp] theorem length_live (a : Arena) : a.live.length = a.top :=
  List.length_take_of_le a.top_le

@[simp] theorem objectCount_live (a : Arena) : a.live.objectCount = a.objects.length := rfl

/-- The bytes below the top are read as they are among the live ones. -/
theorem take_drop_memory (a : Arena) {offset n : Nat} (h : offset + n ≤ a.top) :
    (a.memory.drop offset).take n = (a.live.bytes.drop offset).take n := by
  show _ = ((a.memory.take a.top).drop offset).take n
  rw [List.drop_take, List.take_take]
  congr 1
  omega

theorem take_live (a : Arena) {n : Nat} (h : n ≤ a.top) :
    a.live.bytes.take n = a.memory.take n := by
  show (a.memory.take a.top).take n = a.memory.take n
  rw [List.take_take, Nat.min_eq_left h]

/-- Bytes that are written above the top become live, and those below stay as they are. -/
theorem live_write (a : Arena) (bytes : List UInt8)
    (h : a.top + bytes.length ≤ a.memory.length) :
    (a.write bytes h).live = { a.live with bytes := a.live.bytes ++ bytes } := by
  have hlength : (a.memory.take a.top ++ bytes).length = a.top + bytes.length := by
    rw [List.length_append, List.length_take_of_le a.top_le]
  have hmemory : (a.write bytes h).memory.length = a.memory.length := by
    simp only [write, List.length_append, List.length_take, List.length_drop]
    omega
  show Stack.mk (a.write bytes h).memory.length _ ((a.memory.take a.top ++ bytes
    ++ a.memory.drop (a.top + bytes.length)).take (a.top + bytes.length)) _ = _
  rw [hmemory, List.take_left' hlength]
  rfl

/-- On what is live, each operation of the arena does what the operation of the stack does. -/
theorem live_push {α : Type} [Scalar α] (a : Arena) (v : α) :
    (a.push v).map (Prod.map id live) = a.live.push v := by
  unfold push Stack.push Stack.pushBytes
  rw [length_live]
  by_cases h : a.top + (Scalar.encode v).length ≤ a.memory.length
  · have hroom : a.top + (Scalar.encode v).length ≤ a.live.capacity := h
    rw [dif_pos h, if_pos hroom]
    show Except.ok (a.top, (a.write (Scalar.encode v) h).live) = _
    rw [live_write]
  · have hroom : ¬a.top + (Scalar.encode v).length ≤ a.live.capacity := h
    rw [dif_neg h, if_neg hroom]
    rfl

theorem live_pop (α : Type) [Scalar α] (a : Arena) :
    (a.pop α).map (Prod.map id live) = a.live.pop α := by
  unfold pop Stack.pop Stack.popBytes
  rw [length_live]
  by_cases h : Scalar.size α ≤ a.top
  · have hsize : a.top - (a.top - Scalar.size α) = Scalar.size α := by omega
    have hpopped : (a.memory.drop (a.top - Scalar.size α)).take (Scalar.size α)
        = a.live.bytes.drop (a.top - Scalar.size α) := by
      show _ = (a.memory.take a.top).drop (a.top - Scalar.size α)
      rw [List.drop_take, hsize]
    have hkept : a.memory.take (a.top - Scalar.size α)
        = a.live.bytes.take (a.top - Scalar.size α) :=
      (take_live a (Nat.sub_le _ _)).symm
    rw [if_pos h, if_pos h]
    show Except.ok (Scalar.decode _, Stack.mk _ _ (a.memory.take (a.top - Scalar.size α)) _) = _
    rw [hpopped, hkept]
    rfl
  · rw [if_neg h, if_neg h]
    rfl

/-- Reading sees live bytes alone. -/
theorem live_get (α : Type) [Scalar α] (a : Arena) (offset : Int) :
    a.get α offset = a.live.get α offset := by
  unfold get Stack.get Stack.bytesAt
  rw [length_live]
  by_cases h : 0 ≤ offset ∧ offset.toNat + Scalar.size α ≤ a.top
  · rw [if_pos h, if_pos h, take_drop_memory a h.2]
    rfl
  · rw [if_neg h, if_neg h]
    rfl

theorem live_pushObject (a : Arena) (v : Value) :
    (a.pushObject v).map (Prod.map id live) = a.live.pushObject v := by
  unfold pushObject Stack.pushObject
  rw [objectCount_live]
  by_cases h : a.slots ≤ a.objects.length ∨ Stack.maxObjects ≤ a.objects.length
  · have hfull : a.live.slots ≤ a.objects.length ∨ Stack.maxObjects ≤ a.objects.length := h
    rw [if_pos h, if_pos hfull]
    rfl
  · have hfull : ¬(a.live.slots ≤ a.objects.length ∨ Stack.maxObjects ≤ a.objects.length) := h
    rw [if_neg h, if_neg hfull, ← live_push]
    cases a.push (UInt32.ofNat a.objects.length) with
    | error e => rfl
    | ok result => rfl

theorem live_popObject (a : Arena) :
    a.popObject.map (Prod.map id live) = a.live.popObject := by
  unfold popObject Stack.popObject
  rw [← live_pop]
  cases a.pop UInt32 with
  | error e => rfl
  | ok result =>
    rcases result with ⟨stored, below⟩
    have hobjects : a.live.objects = a.objects := rfl
    simp only [bind, Except.bind, Except.map, Prod.map, id_eq, hobjects, objectCount_live]
    cases a.objects.getLast? with
    | none => rfl
    | some v =>
      by_cases hstored : stored.toNat + 1 = a.objects.length
      · simp only [hstored, if_true]
        rfl
      · simp only [hstored, if_false]

theorem live_getObject (a : Arena) (offset : Int) :
    a.getObject offset = a.live.getObject offset := by
  unfold getObject Stack.getObject
  rw [← live_get]
  cases a.get UInt32 offset with
  | error e => rfl
  | ok index =>
    have hobjects : a.live.objects = a.objects := rfl
    cases hobject : a.objects[index.toNat]? with
    | none => simp only [bind, Except.bind, hobjects, hobject, length_live]
    | some v => simp only [bind, Except.bind, hobjects, hobject]

/-- Going back to a mark leaves what was live then. -/
theorem live_resetTo (a : Arena) (m : Stack.Mark) : (a.resetTo m).live = a.live.resetTo m := by
  unfold resetTo Stack.resetTo
  rw [length_live]
  by_cases h : m.bytes ≤ a.top
  · rw [dif_pos h, if_pos h, take_live a h]
    rfl
  · rw [dif_neg h, if_neg h]

/-- A stack in memory cannot be told from its live part. -/
theorem simulates : ByteStack.Simulates live where
  push := live_push
  pop := live_pop
  get := live_get
  pushObject := live_pushObject
  popObject := live_popObject
  getObject := live_getObject
  clear _ := rfl
  mark a := by
    show Stack.Mark.mk a.top a.objects.length = Stack.Mark.mk a.live.length a.live.objectCount
    rw [length_live, objectCount_live]
  resetTo := live_resetTo

end Arena

end Edict
