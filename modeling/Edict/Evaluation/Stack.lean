import Edict.Evaluation.Error
import Edict.Value

/-! # The evaluation stack

Numbers and truth values are kept as bytes in an arena of fixed size, the least significant byte
first.  Strings and objects are kept in a table beside it; their place in the arena holds four bytes
with their number in the table.  Both grow and shrink together, last in, first out.

Reading is by type and the arena does not know what was pushed, so bytes can be read as another
type than they were written; what does not fit the live bytes or the table is an error, and an
error leaves the stack as it was.
-/

namespace Edict

/-- A type whose values are kept as bytes. -/
class Scalar (α : Type) where
  /-- How many bytes a value takes. -/
  size : Nat
  encode : α → List UInt8
  decode : List UInt8 → α

namespace Scalar

/-- The four bytes of a word, the least significant first. -/
def encodeWord (w : UInt32) : List UInt8 :=
  [w.toUInt8, (w >>> 8).toUInt8, (w >>> 16).toUInt8, (w >>> 24).toUInt8]

/-- The word that four bytes make. -/
def decodeWord : List UInt8 → UInt32
  | [a, b, c, d] => a.toUInt32 ||| b.toUInt32 <<< 8 ||| c.toUInt32 <<< 16 ||| d.toUInt32 <<< 24
  | _ => 0

instance : Scalar UInt32 where
  size := 4
  encode := encodeWord
  decode := decodeWord

instance : Scalar Int32 where
  size := 4
  encode v := encodeWord v.toUInt32
  decode bytes := (decodeWord bytes).toInt32

instance : Scalar Binary32 where
  size := 4
  encode v := encodeWord v.bits
  decode bytes := ⟨decodeWord bytes⟩

/-- A truth value takes one byte; any byte but zero reads as true. -/
instance : Scalar Bool where
  size := 1
  encode v := [if v then 1 else 0]
  decode bytes := bytes.any (· ≠ 0)

end Scalar

/-- How large a stack is. -/
structure StackSize where
  arenaBytes : Nat := 4096
  objectSlots : Nat := 128
deriving DecidableEq, Repr, Inhabited

/-- The stack: its sizes, the live bytes and the live objects, both oldest first. -/
structure Stack where
  capacity : Nat
  slots : Nat
  bytes : List UInt8
  objects : List Value

namespace Stack

/-- The largest arena; offsets are 32-bit integers. -/
def maxCapacity : Nat := 2147483647

/-- The numbers of objects have four bytes. -/
def maxObjects : Nat := 4294967296

def ofSize (size : StackSize) : Stack :=
  ⟨min size.arenaBytes maxCapacity, size.objectSlots, [], []⟩

instance : Inhabited Stack := ⟨ofSize {}⟩

def length (s : Stack) : Nat := s.bytes.length

def objectCount (s : Stack) : Nat := s.objects.length

def isEmpty (s : Stack) : Bool := s.bytes.isEmpty

/-! ## Bytes -/

/-- Pushes bytes and tells the offset of the first. -/
def pushBytes (s : Stack) (bytes : List UInt8) : Except CapacityError (Nat × Stack) :=
  if s.length + bytes.length ≤ s.capacity then
    .ok (s.length, { s with bytes := s.bytes ++ bytes })
  else .error (.arenaOverflow bytes.length (s.capacity - s.length) s.capacity)

/-- Pops the newest `n` bytes. -/
def popBytes (s : Stack) (n : Nat) : Except CapacityError (List UInt8 × Stack) :=
  if n ≤ s.length then
    .ok (s.bytes.drop (s.length - n), { s with bytes := s.bytes.take (s.length - n) })
  else .error (.underflow n s.length)

/-- The `n` bytes at an offset. -/
def bytesAt (s : Stack) (offset : Int) (n : Nat) : Except CapacityError (List UInt8) :=
  if 0 ≤ offset ∧ offset.toNat + n ≤ s.length then .ok ((s.bytes.drop offset.toNat).take n)
  else .error (.invalidOffset offset s.length)

/-! ## Numbers and truth values -/

def push {α : Type} [Scalar α] (s : Stack) (v : α) : Except CapacityError (Nat × Stack) :=
  s.pushBytes (Scalar.encode v)

def pop (α : Type) [Scalar α] (s : Stack) : Except CapacityError (α × Stack) := do
  let (bytes, s) ← s.popBytes (Scalar.size α)
  return (Scalar.decode bytes, s)

def get (α : Type) [Scalar α] (s : Stack) (offset : Int) : Except CapacityError α := do
  return Scalar.decode (← s.bytesAt offset (Scalar.size α))

/-! ## Strings and objects -/

def pushObject (s : Stack) (v : Value) : Except CapacityError (Nat × Stack) :=
  if s.slots ≤ s.objectCount ∨ maxObjects ≤ s.objectCount then
    .error (.objectTableOverflow s.slots)
  else do
    let (offset, s) ← s.push (UInt32.ofNat s.objectCount)
    return (offset, { s with objects := s.objects ++ [v] })

/-- Pops the newest object.  The newest bytes must hold its number. -/
def popObject (s : Stack) : Except CapacityError (Value × Stack) := do
  let (stored, below) ← s.pop UInt32
  match s.objects.getLast? with
  | some v =>
    if stored.toNat + 1 = s.objectCount then
      return (v, { below with objects := s.objects.dropLast })
    else .error (.objectIndexMismatch stored.toNat s.objectCount)
  | none => .error (.objectIndexMismatch stored.toNat s.objectCount)

/-- The object whose number stands at an offset. -/
def getObject (s : Stack) (offset : Int) : Except CapacityError Value := do
  let index ← s.get UInt32 offset
  match s.objects[index.toNat]? with
  | some v => .ok v
  | none => .error (.invalidOffset offset s.length)

/-! ## Heights -/

def clear (s : Stack) : Stack := { s with bytes := [], objects := [] }

/-- How much is on a stack. -/
structure Mark where
  bytes : Nat
  objects : Nat
deriving DecidableEq, Repr, Inhabited

/-- How much is on the stack now. -/
def mark (s : Stack) : Mark := ⟨s.length, s.objectCount⟩

/-- Drops what was pushed since the mark was taken.  A mark above the top is ignored. -/
def resetTo (s : Stack) (m : Mark) : Stack :=
  if m.bytes ≤ s.length then
    { s with bytes := s.bytes.take m.bytes, objects := s.objects.take m.objects }
  else s

def dump (s : Stack) : String :=
  s!"EvaluationStack \x7b used: {s.length}, capacity: {s.capacity}, "
    ++ s!"objects: {s.objectCount}, .. \x7d"

end Stack

/-- Where a value stands on the stack: its kind and its offset. -/
structure ValueInfo where
  kind : Kind
  offset : Int
deriving DecidableEq, Repr, Inhabited

/-- The place of `void`, which takes no room. -/
def ValueInfo.void : ValueInfo := ⟨.void, -1⟩

end Edict
