import Edict.Evaluation.InPlace
import Edict.Proofs.TypedStack

namespace Edict

/-! # Misuse of the stack

Values can be popped and read as other types than they were pushed as, at offsets where none
stands, and the stack can be reset to marks of other times and of other stacks.  Bytes and objects
then no longer fit each other.  Still no step on the memory goes out of bounds, and what fails has
changed nothing: an operation in place comes to what it comes to on an `Arena`, whose operations
give back a new arena or an error and so have nothing to undo.

Main statements:

* `StackCall.run_inPlace`: one operation in place does what it does on an arena;
* `misuse_contained`: so every run of operations in place goes through, within its bounds, and the
  stack of the evaluator answers the same.
-/

/-- The memory of an arena. -/
def Arena.inMemory (a : Arena) : Memory := ⟨a.slots, a.memory, a.top, a.objects⟩

namespace InPlace

variable {α β : Type}

/-! ## Single steps -/

/-- A step that gives a value is followed by the next one, on the memory that it leaves. -/
theorem run_then {act : InPlace α} {next : α → InPlace β} {m m' : Memory} {v : α}
    (h : act.run m = (.ok v, m')) : (act >>= next).run m = (next v).run m' := by
  rw [run_bind, h]

/-- A step that halts ends the whole. -/
theorem run_stop {act : InPlace α} {next : α → InPlace β} {m m' : Memory} {e : Halt}
    (h : act.run m = (.error e, m')) : (act >>= next).run m = (.error e, m') := by
  rw [run_bind, h]

theorem run_get (m : Memory) : (get : InPlace Memory).run m = (.ok m, m) := rfl

theorem run_modify (f : Memory → Memory) (m : Memory) :
    (modify f : InPlace Unit).run m = (.ok (), f m) := rfl

/-- Subtracting does not trap where the difference is no less than zero. -/
theorem run_subtract {a b : Nat} (h : b ≤ a) (m : Memory) :
    (subtract a b).run m = (.ok (a - b), m) := by
  rw [subtract, if_pos h]
  rfl

theorem run_add {a b : Nat} (h : a + b < countLimit) (m : Memory) :
    (add a b).run m = (.ok (a + b), m) := by
  rw [add, if_pos h]
  rfl

/-- Reading does not trap inside the memory. -/
theorem run_read (α : Type) [Scalar α] {start : Nat} {m : Memory}
    (h : start + Scalar.size α ≤ m.cells.length) :
    (read α start (start + Scalar.size α)).run m
      = (.ok (Scalar.decode ((m.cells.drop start).take (Scalar.size α))), m) := by
  have hsize : start + Scalar.size α - start = Scalar.size α := by omega
  have hbounds : start ≤ start + Scalar.size α ∧ start + Scalar.size α ≤ m.cells.length ∧
      start + Scalar.size α - start = Scalar.size α := ⟨by omega, h, hsize⟩
  refine (run_then (run_get m)).trans ?_
  rw [if_pos hbounds, hsize]
  rfl

/-- Writing does not trap inside the memory, and overwrites as many bytes as the value has. -/
theorem run_write [Scalar α] [Scalar.Lawful α] {start : Nat} {m : Memory} (v : α)
    (h : start + Scalar.size α ≤ m.cells.length) :
    (write start (start + Scalar.size α) v).run m
      = (.ok (), { m with
          cells := m.cells.take start ++ Scalar.encode v
            ++ m.cells.drop (start + Scalar.size α) }) := by
  have hlength := Scalar.Lawful.length_encode v
  have hbounds : start ≤ start + Scalar.size α ∧ start + Scalar.size α ≤ m.cells.length ∧
      (Scalar.encode v).length = start + Scalar.size α - start := ⟨by omega, h, by omega⟩
  refine (run_then (run_get m)).trans ?_
  rw [if_pos hbounds]
  rfl

/-- A sum within bounds is a count, if the bound is one. -/
theorem filter_sum? {a b bound : Nat} (h : bound < countLimit) :
    (sum? a b).filter (· ≤ bound) = if a + b ≤ bound then some (a + b) else none := by
  by_cases hbound : a + b ≤ bound
  · rw [if_pos hbound, sum?, if_pos (by omega), Option.filter_some, if_pos (by simpa using hbound)]
  · rw [if_neg hbound, sum?]
    split
    · rw [Option.filter_some, if_neg (by simpa using hbound)]
    · rfl

theorem difference?_one {a b : Nat} : difference? a 1 = some b ↔ b + 1 = a := by
  rw [difference?]
  split
  · rw [Option.some.injEq]
    omega
  · simp only [reduceCtorEq, false_iff]
    omega

/-! ## Whole operations -/

/-- What an operation in the memory of `a` comes to, if it comes to that on `a`: what is left of
`a` is left in memory, and an error leaves memory as it was. -/
def settle (a : Arena) : Except CapacityError (α × Arena) → Except Halt α × Memory
  | .ok (v, left) => (.ok v, left.inMemory)
  | .error e => (.error (.refused e), a.inMemory)

section

variable {a : Arena}

/-- Popping in place gives what popping from the arena gives. -/
theorem run_pop (α : Type) [Scalar α] : (pop α).run a.inMemory = settle a (a.pop α) := by
  have htop := a.top_le
  refine (run_then (run_get a.inMemory)).trans ?_
  rw [Arena.pop]
  by_cases hlive : Scalar.size α ≤ a.top
  · have hstart : difference? a.inMemory.top (Scalar.size α) = some (a.top - Scalar.size α) :=
      if_pos hlive
    have hbounds : a.top - Scalar.size α + Scalar.size α ≤ a.inMemory.cells.length := by
      rw [Nat.sub_add_cancel hlive]
      exact htop
    have hread := run_read α hbounds
    rw [Nat.sub_add_cancel hlive] at hread
    simp only [hstart, if_pos hlive]
    exact run_then hread
  · have hstart : difference? a.inMemory.top (Scalar.size α) = none := if_neg hlive
    simp only [hstart, if_neg hlive]
    rfl

/-- An object is popped in place as it is from the arena, its index first and then its entry. -/
theorem run_popObject : popObject.run a.inMemory = settle a a.popObject := by
  have htop := a.top_le
  have hobjects : a.inMemory.objects = a.objects := rfl
  refine (run_then (run_get a.inMemory)).trans ?_
  rw [Arena.popObject, Arena.pop]
  by_cases hlive : Scalar.size UInt32 ≤ a.top
  · have hstart : difference? a.inMemory.top (Scalar.size UInt32)
        = some (a.top - Scalar.size UInt32) := if_pos hlive
    have hbounds : a.top - Scalar.size UInt32 + Scalar.size UInt32 ≤ a.inMemory.cells.length := by
      rw [Nat.sub_add_cancel hlive]
      exact htop
    have hread := run_read UInt32 hbounds
    rw [Nat.sub_add_cancel hlive] at hread
    simp only [hstart, if_pos hlive]
    refine (run_then hread).trans ?_
    have hcells : a.inMemory.cells = a.memory := rfl
    simp only [hobjects, hcells, bind, Except.bind, difference?_one]
    generalize (Scalar.decode ((a.memory.drop (a.top - Scalar.size UInt32)).take
      (Scalar.size UInt32)) : UInt32) = stored
    -- The stored number must be the one of the newest object, whatever bytes stand there.
    by_cases hstored : stored.toNat + 1 = a.objects.length
    · simp only [hstored, if_true]
      cases a.objects.getLast? with
      | none => rfl
      | some v => rfl
    · simp only [hstored, if_false]
      cases a.objects.getLast? with
      | none => rfl
      | some v => rfl
  · have hstart : difference? a.inMemory.top (Scalar.size UInt32) = none := if_neg hlive
    simp only [hstart, if_neg hlive]
    rfl

variable (hcapacity : a.memory.length ≤ Stack.maxCapacity)
include hcapacity

/-- The memory is so small that no sum of an offset and a size overflows. -/
theorem length_lt_countLimit : a.memory.length < countLimit := by
  simp only [Stack.maxCapacity, countLimit] at hcapacity ⊢
  omega

theorem offsetOf_top : offsetOf a.top = a.top :=
  Nat.min_eq_left (Nat.le_trans a.top_le hcapacity)

/-- Room is reserved where there is room, and refused elsewhere. -/
theorem run_reserve (size : Nat) :
    (reserve size).run a.inMemory = if a.top + size ≤ a.memory.length then
        (.ok (a.top + size), a.inMemory)
      else (.error (.refused (.arenaOverflow size (a.memory.length - a.top) a.memory.length)),
        a.inMemory) := by
  have hsum : (sum? a.inMemory.top size).filter (· ≤ a.inMemory.cells.length)
      = if a.top + size ≤ a.memory.length then some (a.top + size) else none :=
    filter_sum? (length_lt_countLimit hcapacity)
  refine (run_then (run_get a.inMemory)).trans ?_
  refine (run_then (run_subtract a.top_le _)).trans ?_
  by_cases hroom : a.top + size ≤ a.memory.length
  · simp only [hsum, hroom, if_true]
    rfl
  · simp only [hsum, hroom, if_false]
    rfl

/-- Pushing in place gives what pushing on the arena gives. -/
theorem run_push [Scalar α] [Scalar.Lawful α] (v : α) :
    (push v).run a.inMemory = settle a (a.push v) := by
  have hlength := Scalar.Lawful.length_encode v
  have hreserve := run_reserve hcapacity (Scalar.size α)
  refine (run_then (run_get a.inMemory)).trans ?_
  by_cases hroom : a.top + Scalar.size α ≤ a.memory.length
  · have hroom' : a.top + (Scalar.encode v).length ≤ a.memory.length := by omega
    rw [if_pos hroom] at hreserve
    rw [Arena.push, dif_pos hroom']
    refine (run_then hreserve).trans ?_
    refine (run_then (run_write v hroom)).trans ?_
    refine (run_then (run_modify _ _)).trans ?_
    show (Except.ok (offsetOf a.top), _) = _
    rw [offsetOf_top hcapacity]
    simp [settle, Arena.inMemory, Arena.write, hlength]
  · have hroom' : ¬a.top + (Scalar.encode v).length ≤ a.memory.length := by omega
    rw [if_neg hroom] at hreserve
    rw [Arena.push, dif_neg hroom', hlength]
    exact run_stop hreserve

/-- An offset is accepted if all the bytes that it is to be read for are live. -/
theorem run_liveStart (offset : Int) (size : Nat) :
    (liveStart offset size).run a.inMemory = if 0 ≤ offset ∧ offset.toNat + size ≤ a.top then
        (.ok offset.toNat, a.inMemory)
      else (.error (.refused (.invalidOffset offset a.top)), a.inMemory) := by
  have hsum : (sum? offset.toNat size).filter (· ≤ a.inMemory.top)
      = if offset.toNat + size ≤ a.top then some (offset.toNat + size) else none :=
    filter_sum? (Nat.lt_of_le_of_lt a.top_le (length_lt_countLimit hcapacity))
  refine (run_then (run_get a.inMemory)).trans ?_
  by_cases hsign : 0 ≤ offset
  · by_cases hlive : offset.toNat + size ≤ a.top
    · simp only [hsign, hsum, hlive, and_self, if_true]
      rfl
    · simp only [hsign, hsum, hlive, and_false, if_true, if_false]
      rfl
  · simp only [hsign, false_and, if_false]
    rfl

/-- Reading in place changes nothing and gives what reading from the arena gives. -/
theorem run_peek (α : Type) [Scalar α] (offset : Int) :
    (peek α offset).run a.inMemory = settle a ((a.get α offset).map (·, a)) := by
  have htop := a.top_le
  have hlimit := length_lt_countLimit hcapacity
  have hstart := run_liveStart hcapacity offset (Scalar.size α)
  rw [Arena.get]
  by_cases hlive : 0 ≤ offset ∧ offset.toNat + Scalar.size α ≤ a.top
  · rw [if_pos hlive] at hstart ⊢
    refine (run_then hstart).trans ?_
    refine (run_then (run_add (by omega) _)).trans ?_
    exact run_read α (show offset.toNat + Scalar.size α ≤ a.memory.length by omega)
  · rw [if_neg hlive] at hstart ⊢
    exact run_stop hstart

/-- An object is pushed in place as it is on the arena. -/
theorem run_pushObject (v : Value) :
    (pushObject v).run a.inMemory = settle a (a.pushObject v) := by
  refine (run_then (run_get a.inMemory)).trans ?_
  have hslots : a.inMemory.slots = a.slots := rfl
  have hobjects : a.inMemory.objects = a.objects := rfl
  simp only [Arena.pushObject, hslots, hobjects]
  by_cases hfull : a.slots ≤ a.objects.length
  · simp only [hfull, true_or, if_true]
    rfl
  by_cases hcount : Stack.maxObjects ≤ a.objects.length
  · simp only [hfull, hcount, or_true, if_true, if_false]
    rfl
  -- The number is pushed first; if there is no room for it, the table has not been touched.
  have hpush := run_push hcapacity (UInt32.ofNat a.objects.length)
  simp only [hfull, hcount, or_self, if_false]
  cases hoffset : a.push (UInt32.ofNat a.objects.length) with
  | error e =>
    rw [hoffset] at hpush
    exact run_stop hpush
  | ok result =>
    rw [hoffset] at hpush
    exact run_then hpush

theorem run_peekObject (offset : Int) :
    (peekObject offset).run a.inMemory = settle a ((a.getObject offset).map (·, a)) := by
  have hpeek := run_peek hcapacity UInt32 offset
  rw [Arena.getObject]
  cases hindex : a.get UInt32 offset with
  | error e =>
    rw [hindex] at hpeek
    exact run_stop hpeek
  | ok index =>
    rw [hindex] at hpeek
    refine (run_then hpeek).trans ?_
    refine (run_then (run_get a.inMemory)).trans ?_
    have hobjects : a.inMemory.objects = a.objects := rfl
    simp only [hobjects, bind, Except.bind]
    cases a.objects[index.toNat]? with
    | none => rfl
    | some v => rfl

end

/-- A mark, stale or not, is returned to in place as it is in the arena. -/
theorem run_resetTo (a : Arena) (height : Stack.Mark) :
    (resetTo height).run a.inMemory = (.ok (), (a.resetTo height).inMemory) := by
  refine (run_then (run_get a.inMemory)).trans ?_
  rw [Arena.resetTo]
  by_cases hlive : height.bytes ≤ a.top
  · have hlive' : height.bytes ≤ a.inMemory.top := hlive
    rw [if_pos hlive', dif_pos hlive]
    rfl
  · have hlive' : ¬height.bytes ≤ a.inMemory.top := hlive
    rw [if_neg hlive', dif_neg hlive]
    rfl

/-- What is computed of a result does not touch the memory. -/
theorem run_map {a : Arena} {act : InPlace α} {outcome : Except CapacityError (α × Arena)}
    (h : act.run a.inMemory = settle a outcome) (f : α → β) :
    (do return f (← act) : InPlace β).run a.inMemory
      = settle a (outcome.map (Prod.map f id)) := by
  cases outcome with
  | ok result => exact run_then h
  | error e => exact run_stop h

end InPlace

/-! ## Calls -/

/-- A call of an operation on a stack.  Any height at all may be given as a mark. -/
inductive StackCall where
  | push (i : Entry)
  | pop (t : EntryType)
  | get (t : EntryType) (offset : Int)
  | mark
  | resetTo (height : Stack.Mark)
  | clear

/-- What a call comes to if it does not fail. -/
inductive StackReply where
  | offset (n : Nat)
  | entry (i : Entry)
  | height (mark : Stack.Mark)
  | done

namespace StackCall

/-- The call as steps on the memory of a stack. -/
def inPlace : StackCall → InPlace StackReply
  | push (.scalar _ v) => do return .offset (← InPlace.push v)
  | push (.object v) => do return .offset (← InPlace.pushObject v)
  | pop (.scalar t) => do return .entry (.scalar t (← InPlace.pop t.Carrier))
  | pop .object => do return .entry (.object (← InPlace.popObject))
  | get (.scalar t) offset => do return .entry (.scalar t (← InPlace.peek t.Carrier offset))
  | get .object offset => do return .entry (.object (← InPlace.peekObject offset))
  | mark => do return .height (← InPlace.mark)
  | resetTo height => do
    InPlace.resetTo height
    return .done
  | clear => do
    InPlace.clear
    return .done

/-- The call on a stack that an operation leaves behind or, if it fails, does not. -/
def on {S : Type} [ByteStack S] (s : S) : StackCall → Except CapacityError (StackReply × S)
  | push i => (ByteStack.pushEntry s i).map (Prod.map .offset id)
  | pop t => (ByteStack.popEntry s t).map (Prod.map .entry id)
  | get t offset => (ByteStack.getEntry s offset t).map fun i => (.entry i, s)
  | mark => .ok (.height (ByteStack.mark s), s)
  | resetTo height => .ok (.done, ByteStack.resetTo s height)
  | clear => .ok (.done, ByteStack.clear s)

/-- Calls one after the other, with the answers that they get.  A call that fails is not the
last. -/
def runInPlace : List StackCall → Memory → List (Except Halt StackReply) × Memory
  | [], m => ([], m)
  | call :: calls, m =>
    let (answer, m) := call.inPlace.run m
    let (answers, m) := runInPlace calls m
    (answer :: answers, m)

/-- The same calls on a stack. -/
def runOn {S : Type} [ByteStack S] : List StackCall → S → List (Except CapacityError StackReply) × S
  | [], s => ([], s)
  | call :: calls, s =>
    match call.on s with
    | .ok (reply, s) =>
      let (answers, s) := runOn calls s
      (.ok reply :: answers, s)
    | .error e =>
      let (answers, s) := runOn calls s
      (.error e :: answers, s)

open InPlace

/-- One call in place does what it does on an arena. -/
theorem run_inPlace {a : Arena} (hcapacity : a.memory.length ≤ Stack.maxCapacity)
    (call : StackCall) : call.inPlace.run a.inMemory = settle a (call.on a) := by
  -- Reading gives back the arena as it is, with what was read.
  have hread : ∀ {α : Type} (f : α → Entry) (outcome : Except CapacityError α),
      ((outcome.map f).map fun i => (StackReply.entry i, a))
        = (outcome.map (·, a)).map (Prod.map (fun v => .entry (f v)) id) := by
    intro α f outcome
    rw [map_map, map_map]
    rfl
  have hpop : ∀ {α : Type} (f : α → Entry) (outcome : Except CapacityError (α × Arena)),
      (outcome.map (Prod.map f id)).map (Prod.map StackReply.entry id)
        = outcome.map (Prod.map (fun v => .entry (f v)) id) :=
    fun f outcome => map_map _ _ outcome
  cases call with
  | push i =>
    cases i with
    | scalar t v => exact run_map (run_push hcapacity v) _
    | object v => exact run_map (run_pushObject hcapacity v) _
  | pop t =>
    cases t with
    | scalar t => exact (run_map (run_pop t.Carrier) _).trans (congrArg _ (hpop _ _).symm)
    | object => exact (run_map run_popObject _).trans (congrArg _ (hpop _ _).symm)
  | get t offset =>
    cases t with
    | scalar t =>
      exact (run_map (run_peek hcapacity t.Carrier offset) _).trans (congrArg _ (hread _ _).symm)
    | object =>
      exact (run_map (run_peekObject hcapacity offset) _).trans (congrArg _ (hread _ _).symm)
  | mark => rfl
  | resetTo height => exact run_then (run_resetTo a height)
  | clear => rfl

end StackCall

/-! ## Bounds -/

/-- The memory of a stack of a certain size, with no more bytes and objects than it has room for. -/
structure Memory.Within (m : Memory) (size : StackSize) : Prop where
  cells : m.cells.length = min size.arenaBytes Stack.maxCapacity
  top : m.top ≤ m.cells.length
  slots : m.slots = size.objectSlots
  objects : m.objects.length ≤ m.slots

section

variable {a left : Arena} {size : StackSize} {offset : Nat}

theorem Memory.Within.capacity (h : a.inMemory.Within size) :
    a.memory.length ≤ Stack.maxCapacity :=
  Nat.le_trans (Nat.le_of_eq h.cells) (Nat.min_le_right _ _)

/-- An operation that leaves no more objects than there are slots leaves a stack of its size. -/
theorem Memory.Within.of_same (h : a.inMemory.Within size)
    (hmemory : left.memory.length = a.memory.length) (hslots : left.slots = a.slots)
    (hobjects : left.objects.length ≤ a.slots) : left.inMemory.Within size where
  cells := hmemory.trans h.cells
  top := left.top_le
  slots := hslots.trans h.slots
  objects := Nat.le_trans hobjects (Nat.le_of_eq hslots.symm)

/-- What a push that succeeds changes, and what it does not. -/
theorem Arena.push_eq_ok {α : Type} [Scalar α] [Scalar.Lawful α] {v : α}
    (h : a.push v = .ok (offset, left)) :
    offset = a.top ∧ a.top + Scalar.size α ≤ a.memory.length ∧
      left.memory.length = a.memory.length ∧ left.slots = a.slots ∧ left.objects = a.objects := by
  have hlength := Scalar.Lawful.length_encode v
  have htop := a.top_le
  rw [Arena.push] at h
  split at h
  · next hroom =>
    cases h
    refine ⟨rfl, by omega, ?_, rfl, rfl⟩
    simp only [Arena.write, List.length_append, List.length_take, List.length_drop]
    omega
  · cases h

theorem Arena.pushObject_eq_ok {v : Value} (h : a.pushObject v = .ok (offset, left)) :
    offset = a.top ∧ a.top + 4 ≤ a.memory.length ∧ left.memory.length = a.memory.length ∧
      left.slots = a.slots ∧ left.objects.length ≤ a.slots := by
  rw [Arena.pushObject] at h
  split at h
  · cases h
  · next hfull =>
    rcases bind_eq_ok_iff.mp h with ⟨⟨_, below⟩, hpush, h⟩
    cases h
    rcases Arena.push_eq_ok hpush with ⟨hoffset, hroom, hmemory, hslots, hobjects⟩
    refine ⟨hoffset, hroom, hmemory, hslots, ?_⟩
    rw [List.length_append, List.length_singleton, hobjects]
    omega

/-- A pop moves the top alone: the bytes above it stay as they were. -/
theorem Arena.pop_eq_ok {α : Type} [Scalar α] {v : α} (h : a.pop α = .ok (v, left)) :
    left.memory = a.memory ∧ left.slots = a.slots ∧ left.objects = a.objects := by
  rw [Arena.pop] at h
  split at h
  · cases h
    exact ⟨rfl, rfl, rfl⟩
  · cases h

theorem Arena.popObject_eq_ok {v : Value} (h : a.popObject = .ok (v, left)) :
    left.memory = a.memory ∧ left.slots = a.slots ∧
      left.objects.length ≤ a.objects.length := by
  rcases bind_eq_ok_iff.mp h with ⟨⟨stored, below⟩, hpop, h⟩
  rcases Arena.pop_eq_ok hpop with ⟨hmemory, hslots, -⟩
  cases hlast : a.objects.getLast? with
  | none =>
    rw [hlast] at h
    cases h
  | some w =>
    simp only [hlast] at h
    split at h
    · cases h
      refine ⟨hmemory, hslots, ?_⟩
      simp
    · cases h

/-- Returning to a mark overwrites nothing. -/
theorem Arena.resetTo_eq (a : Arena) (height : Stack.Mark) :
    (a.resetTo height).memory = a.memory ∧ (a.resetTo height).slots = a.slots ∧
      (a.resetTo height).objects.length ≤ a.objects.length := by
  rw [Arena.resetTo]
  split
  · exact ⟨rfl, rfl, by simp⟩
  · exact ⟨rfl, rfl, Nat.le_refl _⟩

namespace StackCall

variable {call : StackCall} {reply : StackReply}

/-- A push stays within the memory and within the object table. -/
theorem push_on {i : Entry} (h : (push i).on a = .ok (reply, left)) :
    reply = .offset a.top ∧ a.top < a.memory.length ∧ left.memory.length = a.memory.length ∧
      left.slots = a.slots ∧ left.objects.length ≤ max a.objects.length a.slots := by
  rcases map_eq_ok_iff.mp h with ⟨⟨offset, _⟩, hpush, heq⟩
  cases heq
  cases i with
  | scalar t v =>
    rcases Arena.push_eq_ok hpush with ⟨rfl, hroom, hmemory, hslots, hobjects⟩
    have hsize : 0 < Scalar.size t.Carrier := by
      cases t <;> decide
    have hsame := Nat.le_of_eq (congrArg List.length hobjects)
    exact ⟨rfl, by omega, hmemory, hslots, Nat.le_trans hsame (Nat.le_max_left _ _)⟩
  | object v =>
    rcases Arena.pushObject_eq_ok hpush with ⟨rfl, hroom, hmemory, hslots, hobjects⟩
    exact ⟨rfl, by omega, hmemory, hslots, Nat.le_trans hobjects (Nat.le_max_right _ _)⟩

/-- A pop leaves the memory as it is and makes the object table no longer. -/
theorem pop_on {t : EntryType} (h : (pop t).on a = .ok (reply, left)) :
    left.memory = a.memory ∧ left.slots = a.slots ∧
      left.objects.length ≤ a.objects.length := by
  rcases map_eq_ok_iff.mp h with ⟨⟨i, _⟩, hentry, heq⟩
  cases heq
  cases t with
  | scalar t =>
    rcases map_eq_ok_iff.mp hentry with ⟨⟨v, _⟩, hpop, heq⟩
    cases heq
    rcases Arena.pop_eq_ok hpop with ⟨hmemory, hslots, hobjects⟩
    exact ⟨hmemory, hslots, Nat.le_of_eq (congrArg List.length hobjects)⟩
  | object =>
    rcases map_eq_ok_iff.mp hentry with ⟨⟨v, _⟩, hpop, heq⟩
    cases heq
    exact Arena.popObject_eq_ok hpop

/-- Reading changes nothing. -/
theorem get_on {t : EntryType} {offset : Int} (h : (get t offset).on a = .ok (reply, left)) :
    left = a := by
  rcases map_eq_ok_iff.mp h with ⟨i, -, heq⟩
  cases heq
  rfl

/-- No call takes more room than there is. -/
theorem within_on (h : a.inMemory.Within size) (hcall : call.on a = .ok (reply, left)) :
    left.inMemory.Within size := by
  have hobjects : a.objects.length ≤ a.slots := h.objects
  cases call with
  | push i =>
    rcases push_on hcall with ⟨-, -, hmemory, hslots, hleft⟩
    exact h.of_same hmemory hslots (by omega)
  | pop t =>
    rcases pop_on hcall with ⟨hmemory, hslots, hleft⟩
    exact h.of_same (congrArg List.length hmemory) hslots (Nat.le_trans hleft hobjects)
  | get t offset =>
    obtain rfl := get_on hcall
    exact h
  | mark =>
    cases hcall
    exact h
  | resetTo height =>
    cases hcall
    rcases a.resetTo_eq height with ⟨hmemory, hslots, hleft⟩
    exact h.of_same (congrArg List.length hmemory) hslots (Nat.le_trans hleft hobjects)
  | clear =>
    cases hcall
    exact h.of_same rfl rfl (Nat.zero_le _)

end StackCall

end

/-! ## Whole runs -/

namespace StackCall

variable {S T : Type} [ByteStack S] [ByteStack T] {view : S → T}

/-- A call on a stack that is seen otherwise gets the same answer. -/
theorem on_view (h : ByteStack.Simulates view) (call : StackCall) (s : S) :
    call.on (view s) = (call.on s).map (Prod.map id view) := by
  -- Whether the answer is first put in words or what is left first seen otherwise is the same.
  cases call with
  | push i => rw [on, ← Marked.pushEntry_view h, ← map_fst_snd, on]
  | pop t => rw [on, ← Marked.popEntry_view h, ← map_fst_snd, on]
  | get t offset =>
    rw [on, on, Marked.getEntry_view h]
    cases ByteStack.getEntry (view s) offset t with
    | ok i => rfl
    | error e => rfl
  | mark =>
    rw [on, ← h.mark]
    rfl
  | resetTo height =>
    rw [on, ← h.resetTo]
    rfl
  | clear =>
    rw [on, ← h.clear]
    rfl

/-- Calls on a stack are answered alike by the stack that it stands for. -/
theorem runOn_view (h : ByteStack.Simulates view) (calls : List StackCall) (s : S) :
    runOn calls (view s) = ((runOn calls s).1, view (runOn calls s).2) := by
  induction calls generalizing s with
  | nil => rfl
  | cons call calls ih =>
    rw [runOn, runOn, on_view h]
    cases call.on s with
    | ok result =>
      simp only [Except.map, Prod.map, id]
      rw [ih]
    | error e =>
      simp only [Except.map]
      rw [ih]

open InPlace

/-- Calls in place get the answers that they get on an arena, none of them traps, and they take no
more room than there is. -/
theorem runInPlace_inMemory {size : StackSize} {a : Arena} (h : a.inMemory.Within size)
    (calls : List StackCall) :
    runInPlace calls a.inMemory
        = ((runOn calls a).1.map (Except.mapError .refused), (runOn calls a).2.inMemory) ∧
      (runOn calls a).2.inMemory.Within size := by
  induction calls generalizing a with
  | nil => exact ⟨rfl, h⟩
  | cons call calls ih =>
    rw [runInPlace, run_inPlace h.capacity, runOn]
    cases hcall : call.on a with
    | ok result =>
      rcases ih (within_on h hcall) with ⟨hrun, hwithin⟩
      refine ⟨?_, hwithin⟩
      simp only [settle]
      rw [hrun]
      rfl
    | error e =>
      rcases ih h with ⟨hrun, hwithin⟩
      refine ⟨?_, hwithin⟩
      simp only [settle]
      rw [hrun]
      rfl

end StackCall

/-- A new memory has the sizes that were asked for, cut to the largest there are. -/
theorem Arena.within_ofSize (size : StackSize) : (ofSize size).inMemory.Within size where
  cells := List.length_replicate
  top := Nat.zero_le _
  slots := rfl
  objects := Nat.zero_le _

/-! ## Misuse -/

/-- What holds of a call in memory, however the stack has been used before: from `m` it comes to
`answer` and leaves `left`. -/
structure Contained (size : StackSize) (m : Memory) (call : StackCall)
    (answer : Except Halt StackReply) (left : Memory) : Prop where
  /-- No step goes out of bounds. -/
  goes_on : answer ≠ .error .trapped
  /-- What fails has changed nothing. -/
  unchanged_of_error : ∀ e, answer = .error e → left = m
  /-- Reading changes nothing. -/
  unchanged_of_get : ∀ t offset, call = .get t offset → left = m
  /-- The offset of what is pushed is the height that the stack had; the largest offset, which
  stands for all beyond it, is never told. -/
  offset_of_push : ∀ i reply, call = .push i → answer = .ok reply →
    reply = .offset m.top ∧ m.top < InPlace.largestOffset
  /-- There are no more live bytes and objects than there is room for. -/
  within : left.Within size

/-- After any calls on a stack of any size, with any types, offsets and marks, every further call in
memory goes through within its bounds, and if it fails or only reads, it leaves memory as it was.
The stack of the evaluator gives the same answers and holds what is live in memory. -/
theorem misuse_contained (size : StackSize) (calls : List StackCall) :
    ∃ (answers : List (Except CapacityError StackReply)) (m : Memory),
      StackCall.runInPlace calls (Memory.ofSize size)
        = (answers.map (Except.mapError .refused), m) ∧
      StackCall.runOn calls (Stack.ofSize size) = (answers, m.live) ∧
      m.Within size ∧
      ∀ call : StackCall, ∃ answer left, call.inPlace.run m = (answer, left) ∧
        Contained size m call answer left := by
  rcases StackCall.runInPlace_inMemory (Arena.within_ofSize size) calls with ⟨hrun, hwithin⟩
  have hlive := StackCall.runOn_view Arena.simulates calls (Arena.ofSize size)
  rw [Arena.live_ofSize] at hlive
  rcases hleft : StackCall.runOn calls (Arena.ofSize size) with ⟨answers, a⟩
  rw [hleft] at hrun hwithin hlive
  refine ⟨answers, a.inMemory, hrun, hlive, hwithin, fun call => ?_⟩
  refine ⟨_, _, StackCall.run_inPlace hwithin.capacity call, ?_⟩
  -- A call that fails has not touched the memory; one that does not stays within it.
  cases hcall : call.on a with
  | error e =>
    refine ⟨nofun, fun _ _ => rfl, fun _ _ _ => rfl, nofun, hwithin⟩
  | ok result =>
    rcases result with ⟨reply, left⟩
    refine ⟨nofun, nofun, ?_, ?_, StackCall.within_on hwithin hcall⟩
    · rintro t offset rfl
      obtain rfl := StackCall.get_on hcall
      rfl
    · rintro i _ rfl ⟨rfl⟩
      rcases StackCall.push_on hcall with ⟨hreply, htop, -⟩
      exact ⟨hreply, Nat.lt_of_lt_of_le htop hwithin.capacity⟩

/-- An integer is no object, and to find that out changes nothing. -/
example :
    let calls : List StackCall := [.push (.object (.str "a")), .push (.scalar .int (5 : Int32)),
      .pop .object, .mark]
    (StackCall.runInPlace calls (Memory.ofSize ⟨8, 1⟩)).1
      = [.ok (.offset 0), .ok (.offset 4), .error (.refused (.objectIndexMismatch 5 1)),
        .ok (.height ⟨8, 1⟩)] := by
  rfl

end Edict
