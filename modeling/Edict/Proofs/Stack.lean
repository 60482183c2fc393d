import Mathlib.Data.BitVec
import Edict.Evaluation.Machine
import Edict.Outcome

namespace Edict

/-! # Values on the stack

What it means that a value lies on top of a stack, said in terms of the live bytes and the object
table alone.

Main statements:

* `perform_pushValue`: a push leaves exactly its value on top, or meets the one overflow that
  `Stack.overflow?` names and changes nothing;
* `perform_popValue`: a pop of what a push has left gives back the value and the stack before.
-/

/-! ## Bytes of scalars -/

/-- A scalar whose bytes are as many as it claims and read back as it was. -/
class Scalar.Lawful (α : Type) [Scalar α] : Prop where
  length_encode (a : α) : (Scalar.encode a).length = Scalar.size α
  decode_encode (a : α) : Scalar.decode (Scalar.encode a) = a

/-- Four bytes hold a word. -/
theorem Scalar.decodeWord_encodeWord (w : UInt32) : decodeWord (encodeWord w) = w := by
  apply UInt32.toBitVec_inj.mp
  simp only [encodeWord, decodeWord, UInt32.toBitVec_or, UInt32.toBitVec_shiftLeft,
    UInt8.toBitVec_toUInt32, UInt32.toBitVec_toUInt8, UInt32.toBitVec_shiftRight]
  -- Bit by bit: each bit is in one of the four bytes, and its shift brings it back.
  ext i hi
  simp
  grind

instance : Scalar.Lawful UInt32 where
  length_encode _ := rfl
  decode_encode := Scalar.decodeWord_encodeWord

instance : Scalar.Lawful Int32 where
  length_encode _ := rfl
  decode_encode v := by
    show (Scalar.decodeWord (Scalar.encodeWord v.toUInt32)).toInt32 = v
    rw [Scalar.decodeWord_encodeWord]
    rfl

instance : Scalar.Lawful Binary32 where
  length_encode _ := rfl
  decode_encode v := by
    show Binary32.mk (Scalar.decodeWord (Scalar.encodeWord v.bits)) = v
    rw [Scalar.decodeWord_encodeWord]

instance : Scalar.Lawful Bool where
  length_encode _ := rfl
  decode_encode v := by cases v <;> rfl

/-! ## A value on top -/

/-- How many bytes a value of the kind takes on the stack. -/
def Kind.width : Kind → Nat
  | .void => 0
  | .bool => 1
  | .int | .float | .string | .object => 4

/-- How many objects a value of the kind adds to the object table. -/
def Kind.slots : Kind → Nat
  | .string | .object => 1
  | .void | .int | .float | .bool => 0

namespace Value

/-- The bytes of a value above a table with `objects` objects. -/
def bytes (objects : Nat) : Value → List UInt8
  | void => []
  | int v => Scalar.encode v
  | float v => Scalar.encode v
  | bool v => Scalar.encode v
  | str _ | object _ | null => Scalar.encode (UInt32.ofNat objects)

/-- What a value adds to the object table. -/
def boxed : Value → List Value
  | str v => [str v]
  | object v => [object v]
  | null => [null]
  | _ => []

/-- A value has as many bytes as its kind is wide. -/
@[simp] theorem length_bytes (objects : Nat) (v : Value) :
    (v.bytes objects).length = v.kind.width := by
  cases v <;> rfl

/-- A value has as many entries in the object table as its kind has. -/
@[simp] theorem length_boxed (v : Value) : v.boxed.length = v.kind.slots := by
  cases v <;> rfl

end Value

namespace Stack

/-- The stack with a value on top. -/
def holding (s : Stack) (v : Value) : Stack :=
  { s with bytes := s.bytes ++ v.bytes s.objectCount, objects := s.objects ++ v.boxed }

/-- Where the next value stands. -/
def place (s : Stack) (v : Value) : ValueInfo :=
  ⟨v.kind, if v.kind = .void then -1 else s.length⟩

/-- The overflow that a push of the value meets. -/
def overflow? (s : Stack) (v : Value) : Option CapacityError :=
  if v.kind.slots = 1 ∧ (s.slots ≤ s.objectCount ∨ maxObjects ≤ s.objectCount) then
    some (.objectTableOverflow s.slots)
  else if v.kind = .void ∨ s.length + v.kind.width ≤ s.capacity then none
  else some (.arenaOverflow v.kind.width (s.capacity - s.length) s.capacity)

@[simp] theorem holding_void (s : Stack) : s.holding .void = s := by
  simp [holding, Value.bytes, Value.boxed]

@[simp] theorem length_holding (s : Stack) (v : Value) :
    (s.holding v).length = s.length + v.kind.width := by
  simp [holding, length]

@[simp] theorem objectCount_holding (s : Stack) (v : Value) :
    (s.holding v).objectCount = s.objectCount + v.kind.slots := by
  simp [holding, objectCount]

@[simp] theorem kind_place (s : Stack) (v : Value) : (s.place v).kind = v.kind := rfl

/-- A value that finds room goes into a table whose numbers fit four bytes. -/
theorem objectCount_lt_of_overflow?_eq_none {s : Stack} {v : Value} (h : s.overflow? v = none)
    (hslots : v.kind.slots = 1) : s.objectCount < maxObjects := by
  simp only [overflow?, hslots, true_and] at h
  split at h
  · cases h
  · omega

/-! ## Room for one value -/

/-- There is room for a value of any kind: four bytes, a free slot of the object table, and a number
of four bytes for it. -/
structure HasRoom (s : Stack) : Prop where
  bytes : s.length + 4 ≤ s.capacity
  slot : s.objectCount < s.slots
  number : s.objectCount < maxObjects

/-- With room for a word and an object there is room for any one value. -/
theorem HasRoom.overflow?_eq_none {s : Stack} (h : s.HasRoom) (v : Value) :
    s.overflow? v = none := by
  have hbytes := h.bytes
  have hslot := h.slot
  have hnumber := h.number
  have hwidth : v.kind.width ≤ 4 := by cases v.kind <;> decide
  have hslots : ¬(v.kind.slots = 1 ∧ (s.slots ≤ s.objectCount ∨ maxObjects ≤ s.objectCount)) := by
    omega
  have hfits : v.kind = .void ∨ s.length + v.kind.width ≤ s.capacity := by
    right
    omega
  rw [overflow?, if_neg hslots, if_pos hfits]

/-- Four bytes and one slot are enough. -/
theorem hasRoom_ofSize : (Stack.ofSize ⟨4, 1⟩).HasRoom := by
  constructor <;> decide

/-! ## Pushing and popping -/

/-- Pushing bytes either finds room or fails, and tells the old length as the place. -/
theorem push_eq {α : Type} [Scalar α] [Scalar.Lawful α] (s : Stack) (a : α) :
    s.push a = if s.length + Scalar.size α ≤ s.capacity then
        .ok (s.length, { s with bytes := s.bytes ++ Scalar.encode a })
      else .error (.arenaOverflow (Scalar.size α) (s.capacity - s.length) s.capacity) := by
  simp [push, pushBytes, Scalar.Lawful.length_encode]

/-- What was pushed last is popped. -/
theorem pop_append {α : Type} [Scalar α] [Scalar.Lawful α] (s : Stack) (a : α) :
    { s with bytes := s.bytes ++ Scalar.encode a }.pop α = .ok (a, s) := by
  have hsize := Scalar.Lawful.length_encode a
  have hlength : s.bytes.length + Scalar.size α - Scalar.size α = s.bytes.length := by omega
  simp only [pop, popBytes, length, List.length_append, hsize, hlength, Nat.le_add_left, if_true,
    List.drop_left, List.take_left, bind, Except.bind, pure, Except.pure,
    Scalar.Lawful.decode_encode]

/-- Whatever has been pushed since, a value is read where it was pushed. -/
theorem get_of_prefix {α : Type} [Scalar α] [Scalar.Lawful α] {s : Stack} {below : List UInt8}
    {a : α} (h : below ++ Scalar.encode a <+: s.bytes) : s.get α below.length = .ok a := by
  rcases h with ⟨above, habove⟩
  have hsize := Scalar.Lawful.length_encode a
  have hlength : below.length + Scalar.size α ≤ s.length := by
    rw [length, ← habove, List.length_append, List.length_append, hsize]
    omega
  have hbytes : (s.bytes.drop below.length).take (Scalar.size α) = Scalar.encode a := by
    rw [← habove, List.append_assoc, List.drop_left, List.take_left' hsize]
  have hlive : (0 : Int) ≤ below.length ∧ (below.length : Int).toNat + Scalar.size α ≤ s.length :=
    ⟨Int.natCast_nonneg _, hlength⟩
  rw [get, bytesAt, if_pos hlive]
  show Except.ok (Scalar.decode ((s.bytes.drop below.length).take (Scalar.size α))) = _
  rw [hbytes, Scalar.Lawful.decode_encode]

/-- Pushing an object needs an entry in the table and room for its index. -/
theorem pushObject_eq (s : Stack) (v : Value) :
    s.pushObject v = if s.slots ≤ s.objectCount ∨ maxObjects ≤ s.objectCount then
        .error (.objectTableOverflow s.slots)
      else if s.length + 4 ≤ s.capacity then
        .ok (s.length, { s with
          bytes := s.bytes ++ Scalar.encode (UInt32.ofNat s.objectCount)
          objects := s.objects ++ [v] })
      else .error (.arenaOverflow 4 (s.capacity - s.length) s.capacity) := by
  unfold pushObject
  split
  · rfl
  · rw [push_eq]
    by_cases hroom : s.length + 4 ≤ s.capacity
    · simp [Scalar.size, hroom, bind, Except.bind, pure, Except.pure]
    · simp [Scalar.size, hroom, bind, Except.bind]

/-- The object that was pushed last is popped, as its index is the last one. -/
theorem popObject_append {s : Stack} (v : Value) (h : s.objectCount < maxObjects) :
    { s with
      bytes := s.bytes ++ Scalar.encode (UInt32.ofNat s.objectCount)
      objects := s.objects ++ [v] }.popObject = .ok (v, s) := by
  have hpop := pop_append { s with objects := s.objects ++ [v] } (UInt32.ofNat s.objectCount)
  have hnumber : (UInt32.ofNat s.objectCount).toNat = s.objectCount :=
    UInt32.toNat_ofNat_of_lt h
  simp only [popObject, hpop, bind, Except.bind, List.getLast?_concat, hnumber]
  simp [objectCount, pure, Except.pure]

/-! ## What lies at the bottom of a stack -/

/-- Everything on `s` lies at the bottom of `s'`, which is of the same size. -/
structure Under (s s' : Stack) : Prop where
  capacity : s'.capacity = s.capacity
  slots : s'.slots = s.slots
  bytes : s.bytes <+: s'.bytes
  objects : s.objects <+: s'.objects

theorem Under.refl (s : Stack) : s.Under s :=
  ⟨rfl, rfl, List.prefix_rfl, List.prefix_rfl⟩

/-- A stack is at the bottom of one that holds a value more. -/
theorem under_holding (s : Stack) (v : Value) : s.Under (s.holding v) :=
  ⟨rfl, rfl, List.prefix_append _ _, List.prefix_append _ _⟩

/-- What was pushed on a stack is dropped again by a reset to the mark that was taken before. -/
theorem Under.resetTo_mark {s s' : Stack} (h : s.Under s') : s'.resetTo s.mark = s := by
  have hlength : s.mark.bytes ≤ s'.length := h.bytes.length_le
  have hbytes : s'.bytes.take s.bytes.length = s.bytes := (List.prefix_iff_eq_take.mp h.bytes).symm
  have hobjects : s'.objects.take s.objects.length = s.objects :=
    (List.prefix_iff_eq_take.mp h.objects).symm
  rw [resetTo, if_pos hlength]
  show Stack.mk s'.capacity s'.slots (s'.bytes.take s.bytes.length)
    (s'.objects.take s.objects.length) = s
  rw [h.capacity, h.slots, hbytes, hobjects]

end Stack

namespace EvalM

variable {σ α : Type} (scope : Scope σ)

@[simp] theorem perform_pure (a : α) (m : Machine σ) :
    (pure a : EvalM σ α).perform scope m = (.ok a, m) := rfl

@[simp] theorem perform_throw (e : EvalError) (m : Machine σ) :
    (throw e : EvalM σ α).perform scope m = (.error e, m) := rfl

/-- The second step is run on the machine that the first one leaves, unless that fails. -/
theorem perform_bind {β : Type} (act : EvalM σ α) (next : α → EvalM σ β) (m : Machine σ) :
    (act >>= next).perform scope m = match act.perform scope m with
      | (.ok a, m') => (next a).perform scope m'
      | (.error e, m') => (.error e, m') := by
  have hact : (act scope).run m = act.perform scope m := rfl
  have hrun := run_bind (act scope) (fun a => next a scope) m
  rw [hact] at hrun
  refine hrun.trans ?_
  rcases act.perform scope m with ⟨e | a, m'⟩
  · rfl
  · rfl

/-- A result of two actions in a row is a result of the second on what the first leaves. -/
theorem perform_bind_ok {β : Type} {act : EvalM σ α} {next : α → EvalM σ β} {m m' : Machine σ}
    {b : β} (h : (act >>= next).perform scope m = (.ok b, m')) :
    ∃ a m'', act.perform scope m = (.ok a, m'') ∧ (next a).perform scope m'' = (.ok b, m') := by
  rw [perform_bind] at h
  rcases hact : act.perform scope m with ⟨e | a, m''⟩
  · rw [hact] at h
    cases h
  · rw [hact] at h
    exact ⟨a, m'', rfl, h⟩

theorem perform_onStack (f : Stack → Except CapacityError (α × Stack)) (m : Machine σ) :
    (onStack f : EvalM σ α).perform scope m = match f m.stack with
      | .ok (a, stack) => (.ok a, { m with stack })
      | .error e => (.error (.capacity e), m) := rfl

theorem perform_onWorld (f : StateM (World σ) α) (m : Machine σ) :
    (onWorld f).perform scope m = (.ok (f.run m.world).1, { m with world := (f.run m.world).2 }) :=
  rfl

theorem perform_onWorldExcept (f : ExceptT EvalError (StateM (World σ)) α) (m : Machine σ) :
    (onWorldExcept f).perform scope m
      = ((f.run m.world).1, { m with world := (f.run m.world).2 }) :=
  rfl

/-- A push leaves exactly its value on top, or overflows and changes nothing. -/
theorem perform_pushValue (v : Value) (s : Stack) (w : World σ) :
    (pushValue v).perform scope ⟨s, w⟩ = match s.overflow? v with
      | none => (.ok (s.place v), ⟨s.holding v, w⟩)
      | some e => (.error (.capacity e), ⟨s, w⟩) := by
  cases v with
  | void => simp [pushValue, Stack.overflow?, Value.kind, Kind.slots, Stack.place, ValueInfo.void]
  | int v | float v | bool v =>
    simp only [pushValue, pushScalar, perform_onStack, Stack.push_eq, Stack.overflow?, Value.kind,
      Kind.slots, Kind.width, Scalar.size]
    -- Four bytes for a number, one for a truth value.
    by_cases hroom : s.length + 4 ≤ s.capacity <;> by_cases hroom' : s.length + 1 ≤ s.capacity <;>
      simp [hroom, hroom', Except.map, Stack.place, Stack.holding, Value.kind, Value.bytes,
        Value.boxed]
  | str v | object v | null =>
    simp only [pushValue, pushObject, perform_onStack, Stack.pushObject_eq, Stack.overflow?,
      Value.kind, Kind.slots, Kind.width]
    by_cases hslot : s.slots ≤ s.objectCount ∨ Stack.maxObjects ≤ s.objectCount
    · simp [hslot, Except.map]
    · by_cases hroom : s.length + 4 ≤ s.capacity <;>
        simp [hslot, hroom, Except.map, Stack.place, Stack.holding, Value.kind, Value.bytes,
          Value.boxed]

/-- Bytes of a type on top of the stack are popped as that type. -/
theorem perform_popScalar {β : Type} [Scalar β] [Scalar.Lawful β] (b : β) (s : Stack)
    (w : World σ) :
    (popScalar β : EvalM σ β).perform scope ⟨{ s with bytes := s.bytes ++ Scalar.encode b }, w⟩
      = (.ok b, ⟨s, w⟩) := by
  simp only [popScalar, perform_onStack, Stack.pop_append]

/-- A pop of what a push has left gives back the value and the stack before. -/
theorem perform_popValue {v : Value} {s : Stack} (h : s.overflow? v = none) (w : World σ) :
    (popValue (s.place v)).perform scope ⟨s.holding v, w⟩ = (.ok v, ⟨s, w⟩) := by
  cases v with
  | void => simp [popValue, Stack.place, Value.kind]
  | int v | float v | bool v =>
    simp only [popValue, Stack.kind_place, Value.kind, perform_bind]
    simp [Stack.holding, Value.bytes, Value.boxed, perform_popScalar]
  | str v | object v | null =>
    -- Only a number that fits its four bytes is found again in the table.
    have hcount := Stack.objectCount_lt_of_overflow?_eq_none h rfl
    simp only [popValue, Stack.kind_place, Value.kind, perform_onStack, Stack.holding,
      Value.bytes, Value.boxed, Stack.popObject_append _ hcount]

end EvalM

end Edict
