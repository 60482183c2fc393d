import Edict.Evaluation.Arena
import Edict.Proofs.Stack

namespace Edict

/-! # A stack of typed values

The bytes and the object table together are a stack of values of several types, last in, first out.
Nothing in the bytes tells their types, but as long as every pop asks for the type that was pushed,
each value comes back as it was: the bytes of the live values stand one behind the other, and the
place of an object holds the number of objects below it.

`TypedStack.Step` says what a list of typed values does, with room counted in bytes and in slots.
`TypedStack.run_stored` shows the stack doing the same, run after run, and by `Arena.simulates` so
does a stack in memory, where new values are written over what old ones have left behind.

Main statements:

* `TypedStack.step_stored`: one operation has the answer that the list of values has, and stores the
  list that comes of it;
* `implements_typed_stack`: so does every sequence of operations, with stale bytes or without.
-/

/-! ## Typed values -/

/-- A type whose values are kept as bytes. -/
inductive ScalarType where
  | int | word | float | bool
deriving DecidableEq

namespace ScalarType

def Carrier : ScalarType → Type
  | int => Int32
  | word => UInt32
  | float => Binary32
  | bool => Bool

instance : (t : ScalarType) → Scalar t.Carrier
  | int => inferInstanceAs (Scalar Int32)
  | word => inferInstanceAs (Scalar UInt32)
  | float => inferInstanceAs (Scalar Binary32)
  | bool => inferInstanceAs (Scalar Bool)

instance : (t : ScalarType) → Scalar.Lawful t.Carrier
  | int => inferInstanceAs (Scalar.Lawful Int32)
  | word => inferInstanceAs (Scalar.Lawful UInt32)
  | float => inferInstanceAs (Scalar.Lawful Binary32)
  | bool => inferInstanceAs (Scalar.Lawful Bool)

end ScalarType

/-- A type that values are pushed as. -/
inductive EntryType where
  | scalar (t : ScalarType)
  | object
deriving DecidableEq

def EntryType.width : EntryType → Nat
  | scalar .bool => 1
  | scalar _ | object => 4

/-- An entry of a scalar type is as wide as its scalars are. -/
theorem EntryType.width_scalar (t : ScalarType) : (scalar t).width = Scalar.size t.Carrier := by
  cases t <;> rfl

/-- A value as it is pushed. -/
inductive Entry where
  | scalar (t : ScalarType) (v : t.Carrier)
  | object (v : Value)

namespace Entry

def type : Entry → EntryType
  | scalar t _ => .scalar t
  | object _ => .object

/-- The bytes of a value above `objects` objects. -/
def bytes (objects : Nat) : Entry → List UInt8
  | scalar _ v => Scalar.encode v
  | object _ => Scalar.encode (UInt32.ofNat objects)

/-- What a value adds to the object table. -/
def boxed : Entry → List Value
  | scalar _ _ => []
  | object v => [v]

@[simp] theorem length_bytes (objects : Nat) (i : Entry) :
    (i.bytes objects).length = i.type.width := by
  cases i with
  | scalar t v => rw [bytes, type, EntryType.width_scalar, Scalar.Lawful.length_encode]
  | object v => rfl

/-! ### Values on top of each other, newest first -/

/-- How many bytes the values take. -/
def height : List Entry → Nat
  | [] => 0
  | i :: below => height below + i.type.width

/-- The objects among the values, oldest first. -/
def table : List Entry → List Value
  | [] => []
  | i :: below => table below ++ i.boxed

/-- The bytes of the values, oldest first. -/
def image : List Entry → List UInt8
  | [] => []
  | i :: below => image below ++ i.bytes (table below).length

@[simp] theorem length_image (entries : List Entry) : (image entries).length = height entries := by
  induction entries with
  | nil => rfl
  | cons i below ih => rw [image, height, List.length_append, ih, length_bytes]

/-- Entries at the bottom have their objects at the bottom of the table. -/
theorem prefix_table {base entries : List Entry} (h : base <:+ entries) :
    table base <+: table entries := by
  rcases h with ⟨above, rfl⟩
  induction above with
  | nil => exact List.prefix_rfl
  | cons i above ih => exact ih.trans (List.prefix_append _ _)

/-- Entries at the bottom have their bytes at the bottom of the memory. -/
theorem prefix_image {base entries : List Entry} (h : base <:+ entries) :
    image base <+: image entries := by
  rcases h with ⟨above, rfl⟩
  induction above with
  | nil => exact List.prefix_rfl
  | cons i above ih => exact ih.trans (List.prefix_append _ _)

end Entry

/-! ## Operations by type -/

namespace ByteStack

variable {S T : Type} [ByteStack S] [ByteStack T]

/-- Pushes a value as what it is and tells its offset. -/
def pushEntry (s : S) : Entry → Except CapacityError (Nat × S)
  | .scalar _ v => push s v
  | .object v => pushObject s v

/-- Pops a value as one of the type. -/
def popEntry (s : S) : EntryType → Except CapacityError (Entry × S)
  | .scalar t => (pop t.Carrier s).map (Prod.map (.scalar t) id)
  | .object => (popObject s).map (Prod.map .object id)

/-- Reads what stands at an offset as a value of the type. -/
def getEntry (s : S) (offset : Int) : EntryType → Except CapacityError Entry
  | .scalar t => (get t.Carrier s offset).map (.scalar t)
  | .object => (getObject s offset).map .object

end ByteStack

/-- An operation on a stack.  The marks that were taken are counted back from the last one. -/
inductive StackOp where
  | push (i : Entry)
  | pop (t : EntryType)
  | get (t : EntryType) (offset : Int)
  | mark
  | reset (k : Nat)
  | clear

/-- What comes of an operation. -/
inductive StackAnswer where
  | pushed (offset : Nat)
  | entry (i : Entry)
  | failed (e : CapacityError)
  | done

/-- A stack and the marks that were taken of it, the last one first. -/
structure Marked (S : Type) where
  stack : S
  marks : List Stack.Mark

namespace Marked

variable {S T : Type} [ByteStack S] [ByteStack T]

open ByteStack

def step (m : Marked S) : StackOp → StackAnswer × Marked S
  | .push i =>
    match pushEntry m.stack i with
    | .ok (offset, stack) => (.pushed offset, { m with stack })
    | .error e => (.failed e, m)
  | .pop t =>
    match popEntry m.stack t with
    | .ok (i, stack) => (.entry i, { m with stack })
    | .error e => (.failed e, m)
  | .get t offset =>
    match getEntry m.stack offset t with
    | .ok i => (.entry i, m)
    | .error e => (.failed e, m)
  | .mark => (.done, { m with marks := mark m.stack :: m.marks })
  | .reset k =>
    match m.marks[k]? with
    | some height => (.done, { m with stack := resetTo m.stack height })
    | none => (.done, m)
  | .clear => (.done, { m with stack := clear m.stack })

def run (m : Marked S) : List StackOp → List StackAnswer × Marked S
  | [] => ([], m)
  | op :: ops =>
    let (answer, m) := m.step op
    let (answers, m) := m.run ops
    (answer :: answers, m)

/-! ### Stacks that cannot be told apart -/

/-- The same marks of a stack seen otherwise. -/
def map (view : S → T) (m : Marked S) : Marked T := ⟨view m.stack, m.marks⟩

variable {view : S → T}

/-- A stack that stands for another one is pushed to, popped from and read as that one is. -/
theorem pushEntry_view (h : Simulates view) (s : S) (i : Entry) :
    (pushEntry s i).map (Prod.map id view) = pushEntry (view s) i := by
  cases i with
  | scalar t v => exact h.push s v
  | object v => exact h.pushObject s v

theorem popEntry_view (h : Simulates view) (s : S) (t : EntryType) :
    (popEntry s t).map (Prod.map id view) = popEntry (view s) t := by
  -- Whether a result is first made an entry or first seen otherwise is the same.
  cases t with
  | scalar t => exact (map_fst_snd _ _ _).trans (by rw [h.pop, popEntry])
  | object => exact (map_fst_snd _ _ _).trans (by rw [h.popObject, popEntry])

theorem getEntry_view (h : Simulates view) (s : S) (offset : Int) (t : EntryType) :
    getEntry s offset t = getEntry (view s) offset t := by
  cases t with
  | scalar t => rw [getEntry, getEntry, h.get]
  | object => rw [getEntry, getEntry, h.getObject]

/-- An operation answers the same and leaves what it leaves otherwise. -/
theorem step_view (h : Simulates view) (m : Marked S) (op : StackOp) :
    (m.map view).step op = ((m.step op).1, (m.step op).2.map view) := by
  -- Marks are heights, which both stacks share, and each operation is answered alike.
  cases op with
  | push i =>
    have hpush := pushEntry_view h m.stack i
    simp only [step, map, ← hpush]
    cases pushEntry m.stack i with
    | ok result => rfl
    | error e => rfl
  | pop t =>
    have hpop := popEntry_view h m.stack t
    simp only [step, map, ← hpop]
    cases popEntry m.stack t with
    | ok result => rfl
    | error e => rfl
  | get t offset =>
    have hget := getEntry_view h m.stack offset t
    simp only [step, map, ← hget]
    cases getEntry m.stack offset t with
    | ok i => rfl
    | error e => rfl
  | mark => simp only [step, map, h.mark]
  | reset k =>
    simp only [step, map]
    cases m.marks[k]? with
    | some height => simp only [h.resetTo]
    | none => rfl
  | clear => simp only [step, map, h.clear]

/-- Runs of operations are answered alike by the stack that a stack stands for. -/
theorem run_view (h : Simulates view) (m : Marked S) (ops : List StackOp) :
    (m.map view).run ops = ((m.run ops).1, (m.run ops).2.map view) := by
  induction ops generalizing m with
  | nil => rfl
  | cons op ops ih =>
    rw [run, run, step_view h]
    dsimp only
    rw [ih]

end Marked

/-! ## The list of values -/

open Entry ByteStack

/-- What the stack stands for: the live values, newest first, and for each mark the values that were
live when it was taken. -/
structure TypedStack where
  capacity : Nat
  slots : Nat
  entries : List Entry
  marks : List (List Entry)

namespace TypedStack

def ofSize (size : StackSize) : TypedStack :=
  ⟨min size.arenaBytes Stack.maxCapacity, size.objectSlots, [], []⟩

/-- Why there is no room for one more value, if there is none. -/
def overflow? (t : TypedStack) (i : Entry) : Option CapacityError :=
  if i.type = .object ∧ t.slots ≤ (table t.entries).length then
    some (.objectTableOverflow t.slots)
  else if height t.entries + i.type.width ≤ t.capacity then none
  else some (.arenaOverflow i.type.width (t.capacity - height t.entries) t.capacity)

/-- An operation that fits the values, its answer and what comes of the values.  A pop fits if it
asks for the type of the newest value; a reading, if it asks for a live value at the offset where it
was pushed; a reset, if what was live when the mark was taken is still there below the rest. -/
inductive Step : TypedStack → StackOp → StackAnswer → TypedStack → Prop
  | push {t : TypedStack} {i : Entry} (h : t.overflow? i = none) :
      Step t (.push i) (.pushed (height t.entries)) { t with entries := i :: t.entries }
  | full {t : TypedStack} {i : Entry} {e : CapacityError} (h : t.overflow? i = some e) :
      Step t (.push i) (.failed e) t
  | pop {t : TypedStack} {i : Entry} {below : List Entry} (h : t.entries = i :: below) :
      Step t (.pop i.type) (.entry i) { t with entries := below }
  | get {t : TypedStack} {i : Entry} {below : List Entry} (h : i :: below <:+ t.entries) :
      Step t (.get i.type (height below)) (.entry i) t
  | mark {t : TypedStack} : Step t .mark .done { t with marks := t.entries :: t.marks }
  | reset {t : TypedStack} {k : Nat} {base : List Entry} (hmark : t.marks[k]? = some base)
      (hlive : base <:+ t.entries) : Step t (.reset k) .done { t with entries := base }
  | clear {t : TypedStack} : Step t .clear .done { t with entries := [] }

/-- Operations one after the other, with their answers. -/
inductive Run : TypedStack → List StackOp → List StackAnswer → TypedStack → Prop
  | nil {t : TypedStack} : Run t [] [] t
  | cons {t t' t'' : TypedStack} {op : StackOp} {ops : List StackOp} {answer : StackAnswer}
      {answers : List StackAnswer} (hfirst : Step t op answer t') (hrest : Run t' ops answers t'') :
      Run t (op :: ops) (answer :: answers) t''

/-- There are no more objects than slots, and the slots can be counted in four bytes. -/
structure Fits (t : TypedStack) : Prop where
  objects : (table t.entries).length ≤ t.slots
  slots : t.slots ≤ Stack.maxObjects

/-- The stack that values are stored as. -/
def stack (t : TypedStack) (entries : List Entry) : Stack :=
  ⟨t.capacity, t.slots, image entries, table entries⟩

/-- The stack and the marks that the values are stored as. -/
def stored (t : TypedStack) : Marked Stack :=
  ⟨t.stack t.entries, t.marks.map fun base => ⟨height base, (table base).length⟩⟩

variable {t t' : TypedStack} {i : Entry} {entries below base : List Entry}

/-- There is room for an entry if there is for its bytes and, if it is an object, for one in the
table. -/
theorem overflow?_eq_none_iff : t.overflow? i = none ↔
    height t.entries + i.type.width ≤ t.capacity ∧
      (i.type = .object → (table t.entries).length < t.slots) := by
  rw [overflow?]
  by_cases hfull : i.type = .object ∧ t.slots ≤ (table t.entries).length
  · rw [if_pos hfull]
    constructor
    · nofun
    · intro h
      exact absurd (h.2 hfull.1) (Nat.not_lt_of_le hfull.2)
  · rw [if_neg hfull]
    have hfree : i.type = .object → (table t.entries).length < t.slots :=
      fun htype => Nat.lt_of_not_le fun h => hfull ⟨htype, h⟩
    by_cases hroom : height t.entries + i.type.width ≤ t.capacity
    · rw [if_pos hroom]
      exact ⟨fun _ => ⟨hroom, hfree⟩, fun _ => rfl⟩
    · rw [if_neg hroom]
      exact ⟨nofun, fun h => absurd h.1 hroom⟩

/-- The number of every object fits its four bytes. -/
theorem Fits.count (h : t.Fits) : (table t.entries).length ≤ Stack.maxObjects :=
  Nat.le_trans h.objects h.slots

theorem length_stack (t : TypedStack) (entries : List Entry) :
    (t.stack entries).length = height entries := length_image entries

/-- A mark is the height of the entries and the number of objects among them. -/
theorem mark_stack (t : TypedStack) (entries : List Entry) :
    (t.stack entries).mark = ⟨height entries, (table entries).length⟩ :=
  congrArg (Stack.Mark.mk · (table entries).length) (length_stack t entries)

/-- Entries at the bottom make a stack at the bottom. -/
theorem under_stack (t : TypedStack) (h : base <:+ entries) :
    (t.stack base).Under (t.stack entries) :=
  ⟨rfl, rfl, prefix_image h, prefix_table h⟩

/-! ### Each operation on what is stored -/

/-- A scalar on top has its bytes on top, and no object. -/
theorem stack_scalar (t : TypedStack) (a : ScalarType) (v : a.Carrier) (below : List Entry) :
    t.stack (.scalar a v :: below)
      = { t.stack below with bytes := (t.stack below).bytes ++ Scalar.encode v } := by
  simp only [stack, image, table, boxed, bytes, List.append_nil]

/-- Pushing bytes puts an entry on top, or finds that there is no room for it. -/
theorem pushScalar_stack (t : TypedStack) (a : ScalarType) (v : a.Carrier) :
    (t.stack t.entries).push v = match t.overflow? (.scalar a v) with
      | none => .ok (height t.entries, t.stack (.scalar a v :: t.entries))
      | some e => .error e := by
  have hwidth : Scalar.size a.Carrier = (Entry.scalar a v).type.width :=
    (EntryType.width_scalar a).symm
  have hslots : ¬((Entry.scalar a v).type = .object ∧ t.slots ≤ (table t.entries).length) := nofun
  rw [Stack.push_eq, length_stack, hwidth, overflow?, if_neg hslots, stack_scalar]
  by_cases hroom : height t.entries + (Entry.scalar a v).type.width ≤ t.capacity
  · have hroom' : height t.entries + (Entry.scalar a v).type.width
        ≤ (t.stack t.entries).capacity := hroom
    rw [if_pos hroom, if_pos hroom']
  · have hroom' : ¬height t.entries + (Entry.scalar a v).type.width
        ≤ (t.stack t.entries).capacity := hroom
    rw [if_neg hroom, if_neg hroom']
    rfl

/-- Pushing an object puts an entry on top, or finds that there is no room for it. -/
theorem pushObject_stack (h : t.Fits) (v : Value) :
    (t.stack t.entries).pushObject v = match t.overflow? (.object v) with
      | none => .ok (height t.entries, t.stack (.object v :: t.entries))
      | some e => .error e := by
  have hslots := h.slots
  rw [Stack.pushObject_eq, length_stack, overflow?]
  by_cases hfull : t.slots ≤ (table t.entries).length
  · have hfull' : (t.stack t.entries).slots ≤ (t.stack t.entries).objectCount ∨
        Stack.maxObjects ≤ (t.stack t.entries).objectCount := .inl hfull
    rw [if_pos hfull', if_pos ⟨rfl, hfull⟩]
    rfl
  · -- The number of a free slot fits its four bytes.
    have hfree : ¬((t.stack t.entries).slots ≤ (t.stack t.entries).objectCount ∨
        Stack.maxObjects ≤ (t.stack t.entries).objectCount) := by
      show ¬(t.slots ≤ (table t.entries).length ∨
        Stack.maxObjects ≤ (table t.entries).length)
      omega
    have hslot : ¬((Entry.object v).type = .object ∧ t.slots ≤ (table t.entries).length) :=
      fun h => hfull h.2
    rw [if_neg hfree, if_neg hslot]
    by_cases hroom : height t.entries + 4 ≤ t.capacity
    · have hroom' : height t.entries + 4 ≤ (t.stack t.entries).capacity := hroom
      have hroom'' : height t.entries + (Entry.object v).type.width ≤ t.capacity := hroom
      rw [if_pos hroom', if_pos hroom'']
      rfl
    · have hroom' : ¬height t.entries + 4 ≤ (t.stack t.entries).capacity := hroom
      have hroom'' : ¬height t.entries + (Entry.object v).type.width ≤ t.capacity := hroom
      rw [if_neg hroom', if_neg hroom'']
      rfl

theorem pushEntry_stack (h : t.Fits) (i : Entry) :
    pushEntry (t.stack t.entries) i = match t.overflow? i with
      | none => .ok (height t.entries, t.stack (i :: t.entries))
      | some e => .error e := by
  cases i with
  | scalar a v => exact pushScalar_stack t a v
  | object v => exact pushObject_stack h v

/-- The entry on top is popped as what it is. -/
theorem popEntry_stack (h : (table (i :: below)).length ≤ Stack.maxObjects) :
    popEntry (t.stack (i :: below)) i.type = .ok (i, t.stack below) := by
  cases i with
  | scalar a v =>
    have hpop : (t.stack (.scalar a v :: below)).pop a.Carrier = .ok (v, t.stack below) := by
      rw [stack_scalar, Stack.pop_append]
    show ((t.stack (.scalar a v :: below)).pop a.Carrier).map (Prod.map (Entry.scalar a) id) = _
    rw [hpop]
    rfl
  | object v =>
    have hcount : (t.stack below).objectCount < Stack.maxObjects := by
      rw [table, List.length_append] at h
      exact Nat.lt_of_succ_le h
    have hpop : (t.stack (.object v :: below)).popObject = .ok (v, t.stack below) :=
      Stack.popObject_append v hcount
    show ((t.stack (.object v :: below)).popObject).map (Prod.map Entry.object id) = _
    rw [hpop]
    rfl

/-- Whatever is pushed later, the bytes of a live value stay where they are. -/
theorem get_stack {α : Type} [Scalar α] [Scalar.Lawful α] (v : α)
    (hbytes : i.bytes (table below).length = Scalar.encode v) (hlive : i :: below <:+ entries) :
    (t.stack entries).get α (height below) = .ok v := by
  have hprefix : image below ++ Scalar.encode v <+: (t.stack entries).bytes := by
    rw [← hbytes]
    exact prefix_image hlive
  rw [← length_image]
  exact Stack.get_of_prefix hprefix

/-- An object is in the table where its entry says that it is. -/
theorem getElem?_table {v : Value} (hlive : .object v :: below <:+ entries) :
    (table entries)[(table below).length]? = some v := by
  rcases prefix_table hlive with ⟨above, habove⟩
  rw [← habove, table, List.append_assoc]
  simp [boxed]

/-- Any live entry is read where it stands, as what it is. -/
theorem getEntry_stack (h : (table entries).length ≤ Stack.maxObjects)
    (hlive : i :: below <:+ entries) :
    getEntry (t.stack entries) (height below) i.type = .ok i := by
  cases i with
  | scalar a v =>
    have hget : (t.stack entries).get a.Carrier (height below) = .ok v := get_stack v rfl hlive
    show ((t.stack entries).get a.Carrier (height below)).map (Entry.scalar a) = _
    rw [hget]
    rfl
  | object v =>
    have hobject : (t.stack entries).objects[(table below).length]? = some v :=
      getElem?_table hlive
    have hcount : (table below).length < Stack.maxObjects :=
      Nat.lt_of_lt_of_le (List.getElem?_eq_some_iff.mp hobject).1 h
    have hnumber : (UInt32.ofNat (table below).length).toNat = (table below).length :=
      UInt32.toNat_ofNat_of_lt hcount
    have hindex : (t.stack entries).get UInt32 (height below)
        = .ok (UInt32.ofNat (table below).length) := get_stack _ rfl hlive
    have hget : (t.stack entries).getObject (height below) = .ok v := by
      rw [Stack.getObject, hindex]
      simp only [bind, Except.bind, hnumber, hobject]
    show ((t.stack entries).getObject (height below)).map Entry.object = _
    rw [hget]
    rfl

/-! ### Whole steps -/

variable {op : StackOp} {ops : List StackOp} {answer : StackAnswer} {answers : List StackAnswer}

/-- What fits still fits when only older values are left. -/
theorem Fits.older (h : t.Fits) (hlive : base <:+ t.entries) (marks : List (List Entry)) :
    Fits { t with entries := base, marks } :=
  ⟨Nat.le_trans (prefix_table hlive).length_le h.objects, h.slots⟩

/-- What has room fits. -/
theorem Fits.push (h : t.Fits) (hroom : t.overflow? i = none) :
    Fits { t with entries := i :: t.entries } := by
  have hslot := (overflow?_eq_none_iff.mp hroom).2
  have hobjects := h.objects
  constructor
  · -- Only an object takes a slot, and there was one left for it.
    show (table t.entries ++ i.boxed).length ≤ t.slots
    rw [List.length_append]
    cases i with
    | scalar a v => exact hobjects
    | object v => exact hslot rfl
  · exact h.slots

/-- Entries that fit still do after any step. -/
theorem Step.fits (h : Step t op answer t') (hfits : t.Fits) : t'.Fits := by
  cases h with
  | push hroom => exact hfits.push hroom
  | full => exact hfits
  | pop hentries => exact hfits.older (hentries ▸ List.suffix_cons _ _) _
  | get => exact hfits
  | mark => exact hfits.older List.suffix_rfl _
  | reset _ hlive => exact hfits.older hlive _
  | clear => exact hfits.older List.nil_suffix _

/-- One operation has the answer that the list of values has, and stores the list that comes of
it. -/
theorem step_stored (h : Step t op answer t') (hfits : t.Fits) :
    t.stored.step op = (answer, t'.stored) := by
  cases h with
  | @push i hroom =>
    have hpush := pushEntry_stack hfits i
    rw [hroom] at hpush
    simp only [stored, Marked.step, hpush]
    rfl
  | @full i e hroom =>
    have hpush := pushEntry_stack hfits i
    rw [hroom] at hpush
    simp only [stored, Marked.step, hpush]
  | @pop i below hentries =>
    have hcount : (table (i :: below)).length ≤ Stack.maxObjects :=
      hentries ▸ hfits.count
    have hpop := popEntry_stack (t := t) hcount
    simp only [stored, Marked.step, hentries, hpop]
    rfl
  | @get i below hlive =>
    have hget := getEntry_stack (t := t) hfits.count hlive
    simp only [stored, Marked.step, hget]
  | mark =>
    have hmark : ByteStack.mark (t.stack t.entries)
        = ⟨height t.entries, (table t.entries).length⟩ := mark_stack t t.entries
    simp only [stored, Marked.step, hmark]
    rfl
  | @reset k base hmark hlive =>
    -- The mark keeps two heights only; what was live then is still what lies below them.
    have hreset : ByteStack.resetTo (t.stack t.entries) ⟨height base, (table base).length⟩
        = t.stack base := by
      rw [← mark_stack t]
      exact (t.under_stack hlive).resetTo_mark
    simp only [stored, Marked.step, List.getElem?_map, hmark, Option.map_some, hreset]
    rfl
  | clear => rfl

/-- The stored stack answers a run of steps as the typed one does, and its entries fit throughout.
-/
theorem run_stored (h : Run t ops answers t') (hfits : t.Fits) :
    t.stored.run ops = (answers, t'.stored) ∧ t'.Fits := by
  induction h with
  | nil => exact ⟨rfl, hfits⟩
  | cons hfirst hrest ih =>
    rcases ih (hfirst.fits hfits) with ⟨hrun, hfits'⟩
    constructor
    · rw [Marked.run, step_stored hfirst hfits]
      dsimp only
      rw [hrun]
    · exact hfits'

/-! ### The answers and the sizes of a run -/

/-- The only failures are overflows. -/
theorem Step.answer_ne_mismatch (h : Step t op answer t') (number objects : Nat) :
    answer ≠ .failed (.objectIndexMismatch number objects) := by
  cases h with
  | @full i e hroom =>
    rintro ⟨rfl⟩
    rw [overflow?] at hroom
    split at hroom
    · cases hroom
    · split at hroom
      · cases hroom
      · cases hroom
  | push | pop | get | mark | reset | clear => nofun

/-- No answer is that an index differs from the number of objects. -/
theorem Run.answers_ne_mismatch (h : Run t ops answers t') (number objects : Nat) :
    .failed (.objectIndexMismatch number objects) ∉ answers := by
  induction h with
  | nil => exact List.not_mem_nil
  | cons hfirst hrest ih =>
    intro hmem
    rcases List.mem_cons.mp hmem with hanswer | hanswers
    · exact hfirst.answer_ne_mismatch number objects hanswer.symm
    · exact ih hanswers

/-- No step changes how much there is room for. -/
theorem Step.sizes (h : Step t op answer t') :
    t'.capacity = t.capacity ∧ t'.slots = t.slots := by
  cases h with
  | push | full | pop | get | mark | reset | clear => exact ⟨rfl, rfl⟩

theorem Run.sizes (h : Run t ops answers t') :
    t'.capacity = t.capacity ∧ t'.slots = t.slots := by
  induction h with
  | nil => exact ⟨rfl, rfl⟩
  | cons hfirst hrest ih =>
    exact ⟨ih.1.trans hfirst.sizes.1, ih.2.trans hfirst.sizes.2⟩

/-! ### What a stack stands for -/

/-- A stack that stands for the values: each live value is read where it was pushed, the place of an
object holds the number of objects below it, and a push finds room as long as there are bytes and
slots left. -/
structure StandsFor {S : Type} [ByteStack S] (s : S) (t : TypedStack) : Prop where
  reads {i : Entry} {below : List Entry} (hlive : i :: below <:+ t.entries) :
    getEntry s (height below) i.type = .ok i
  numbers {v : Value} {below : List Entry} (hlive : .object v :: below <:+ t.entries) :
    get UInt32 s (height below) = .ok (UInt32.ofNat (table below).length)
  room (i : Entry) : (∃ offset s', pushEntry s i = .ok (offset, s')) ↔
    height t.entries + i.type.width ≤ t.capacity ∧
      (i.type = .object → (table t.entries).length < t.slots)

theorem standsFor_stack (h : t.Fits) : StandsFor (t.stack t.entries) t where
  reads hlive := getEntry_stack h.count hlive
  numbers hlive := get_stack _ rfl hlive
  room i := by
    rw [pushEntry_stack h, ← overflow?_eq_none_iff]
    cases t.overflow? i with
    | none => exact ⟨fun _ => rfl, fun _ => ⟨_, _, rfl⟩⟩
    | some e => exact ⟨nofun, nofun⟩

/-- What is seen of a stack stands for what the stack stands for. -/
theorem StandsFor.of_view {S T : Type} [ByteStack S] [ByteStack T] {view : S → T} {s : S}
    (hview : Simulates view) (h : StandsFor (view s) t) : StandsFor s t where
  reads hlive := (Marked.getEntry_view hview s _ _).trans (h.reads hlive)
  numbers hlive := (hview.get UInt32 s _).trans (h.numbers hlive)
  room i := by
    rw [← h.room i, ← Marked.pushEntry_view hview s i]
    cases pushEntry s i with
    | ok result => exact ⟨fun _ => ⟨_, _, rfl⟩, fun _ => ⟨_, _, rfl⟩⟩
    | error e => exact ⟨nofun, nofun⟩

theorem fits_ofSize {size : StackSize} (h : size.objectSlots ≤ Stack.maxObjects) :
    (ofSize size).Fits := ⟨Nat.zero_le _, h⟩

end TypedStack

open TypedStack

/-- On a stack of any size whose slots can be counted in four bytes, every sequence of fitting
operations has the answers that a list of typed values has, and the stack stands for the list that
comes of it.  The bytes that lie above the top in memory make no difference. -/
theorem implements_typed_stack {size : StackSize} (hsize : size.objectSlots ≤ Stack.maxObjects)
    {ops : List StackOp} {answers : List StackAnswer} {t : TypedStack}
    (h : Run (TypedStack.ofSize size) ops answers t) :
    (t.capacity = min size.arenaBytes Stack.maxCapacity ∧ t.slots = size.objectSlots) ∧
    (∀ number objects, .failed (.objectIndexMismatch number objects) ∉ answers) ∧
    (∃ m : Marked Stack, (Marked.mk (Stack.ofSize size) []).run ops = (answers, m) ∧
      m = t.stored ∧ StandsFor m.stack t) ∧
    ∃ m : Marked Arena, (Marked.mk (Arena.ofSize size) []).run ops = (answers, m) ∧
      m.map Arena.live = t.stored ∧ StandsFor m.stack t := by
  rcases run_stored h (fits_ofSize hsize) with ⟨hrun, hfits⟩
  have hstands : StandsFor t.stored.stack t := standsFor_stack hfits
  -- In memory the same happens, seen through the live part.
  have hview := Marked.run_view Arena.simulates (Marked.mk (Arena.ofSize size) []) ops
  have hstart : (Marked.mk (Arena.ofSize size) []).map Arena.live
      = (TypedStack.ofSize size).stored :=
    congrArg (Marked.mk · []) (Arena.live_ofSize size)
  rw [hstart, hrun] at hview
  rcases hmemory : (Marked.mk (Arena.ofSize size) []).run ops with ⟨answers', m⟩
  rw [hmemory] at hview
  rcases Prod.mk.inj hview with ⟨hanswers, hlive⟩
  have hmapped : StandsFor (m.map Arena.live).stack t := hlive ▸ hstands
  refine ⟨h.sizes, h.answers_ne_mismatch, ⟨t.stored, hrun, rfl, hstands⟩, m, ?_, hlive.symm,
    hmapped.of_view Arena.simulates⟩
  rw [hanswers]

/-- In nine bytes with one slot, an integer at the bottom stays what it is while the four bytes
above it are a string's first and a number's after a reset. -/
theorem implements_typed_stack_refilled :
    let bottom : Entry := .scalar .int (-3 : Int32)
    let number : Entry := .scalar .float (⟨1069547520⟩ : Binary32)
    let top : Entry := .scalar .bool true
    let string : Entry := .object (.str "a")
    StackSize.objectSlots ⟨9, 1⟩ ≤ Stack.maxObjects ∧
    ((Marked.mk (Arena.ofSize ⟨9, 1⟩) []).run
      [.push bottom, .mark, .push string, .push (.object .null), .push top, .get .object 4,
        .push number, .reset 0, .push number, .get (.scalar .int) 0, .pop (.scalar .float),
        .pop (.scalar .int), .clear]).1
      = [.pushed 0, .done, .pushed 4, .failed (.objectTableOverflow 1), .pushed 8, .entry string,
        .failed (.arenaOverflow 4 0 9), .done, .pushed 4, .entry bottom, .entry number,
        .entry bottom, .done] := by
  intro bottom number top string
  have hsize : StackSize.objectSlots ⟨9, 1⟩ ≤ Stack.maxObjects := by decide
  have hstring : [string, bottom] <:+ [top, string, bottom] := List.suffix_cons _ _
  have hbottom : [bottom] <:+ [top, string, bottom] := (List.suffix_cons _ _).trans hstring
  have hbottom' : [bottom] <:+ [number, bottom] := List.suffix_cons _ _
  have hanswers {ops answers t} (h : TypedStack.Run (.ofSize ⟨9, 1⟩) ops answers t) :
      ((Marked.mk (Arena.ofSize ⟨9, 1⟩) []).run ops).1 = answers := by
    rcases implements_typed_stack hsize h with ⟨-, -, -, m, hrun, -, -⟩
    rw [hrun]
  constructor
  · exact hsize
  · apply hanswers (t := ⟨9, 1, [], [[bottom]]⟩)
    refine .cons (.push rfl) ?_
    refine .cons .mark ?_
    refine .cons (.push rfl) ?_
    refine .cons (.full rfl) ?_
    refine .cons (.push rfl) ?_
    refine .cons (@TypedStack.Step.get _ string [bottom] hstring) ?_
    refine .cons (.full rfl) ?_
    refine .cons (.reset rfl hbottom) ?_
    refine .cons (.push rfl) ?_
    refine .cons (@TypedStack.Step.get _ bottom [] hbottom') ?_
    refine .cons (@TypedStack.Step.pop _ number [bottom] rfl) ?_
    refine .cons (@TypedStack.Step.pop _ bottom [] rfl) ?_
    exact .cons .clear .nil

end Edict
