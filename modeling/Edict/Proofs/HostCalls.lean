import Edict.Evaluation.Eval
import Edict.Proofs.Stack
import Mathlib.Logic.Relation

namespace Edict

/-! # What evaluation asks of the host

A scope can be made to write down every call that reaches the host.  The recorded scope keeps the
calls beside the state of the host, and evaluating with it gives the same outcome, stack and world
as evaluating without (`records_eval`).  So the calls that an expression makes are a function of
the expression, the scope and the machine it starts on (`hostCalls`).

What evaluation makes of the world is made of it by answers of the host, one after the other.
`Scope.Moves` is one answer and `Scope.Reaches` any number of them; `Objects.Asks` and
`Objects.Asked` are the same for the answers that objects give about their string form and their
elements, which are no calls in the sense above.
-/

/-! ## Answers of the host, one after the other -/

section

variable {σ : Type}

/-- An object is asked for its string form, its length or one of its elements, and the world becomes
`w'`. -/
inductive Objects.Asks (host : Objects σ) (w : World σ) : World σ → Prop
  | describe (o : ObjectRef) : Asks host w ((host.describe o).run w).2
  | length (o : ObjectRef) : Asks host w ((host.length o).run w).2
  | element (o : ObjectRef) (position : Nat) : Asks host w ((host.element? o position).run w).2

/-- The host answers once, and the world becomes `w'`. -/
inductive Scope.Moves (scope : Scope σ) (w : World σ) : World σ → Prop
  | fresh : Moves scope w (World.fresh.run w).2
  | ask {w' : World σ} (h : scope.objects.Asks w w') : Moves scope w w'
  | selectMember (owner : ObjectRef) (name : String) :
    Moves scope w ((scope.objects.select owner name).run w).2
  | assignMember (owner : ObjectRef) (name : String) (v : Value) :
    Moves scope w ((scope.objects.assign owner name v).run w).2
  | select {s : Selector σ} (h : s ∈ scope.selectors.map (·.2)) (owner? : Option ObjectRef)
    (name : String) : Moves scope w ((s.select owner? name).run w).2
  | assign {s : Selector σ} (h : s ∈ scope.selectors.map (·.2)) (owner? : Option ObjectRef)
    (name : String) (v : Value) : Moves scope w ((s.assign owner? name v).run w).2
  | create {typeName : String} {initializer : Initializer σ}
    (h : scope.initializers.find? typeName = some initializer) :
    Moves scope w (initializer.create.run w).2
  | setField {typeName : String} {initializer : Initializer σ}
    (h : scope.initializers.find? typeName = some initializer) (object : ObjectRef)
    (field : String) (v : Value) : Moves scope w ((initializer.setField object field v).run w).2

/-- Objects are asked any number of times, and the world becomes `w'`. -/
def Objects.Asked (host : Objects σ) : World σ → World σ → Prop := Relation.ReflTransGen host.Asks

/-- The host answers any number of times, and the world becomes `w'`. -/
def Scope.Reaches (scope : Scope σ) : World σ → World σ → Prop := Relation.ReflTransGen scope.Moves

theorem Scope.Moves.reaches {scope : Scope σ} {w w' : World σ} (h : scope.Moves w w') :
    scope.Reaches w w' :=
  .single h

/-- Asking objects is one way of the host to answer. -/
theorem Objects.Asked.reaches {scope : Scope σ} {w w' : World σ} (h : scope.objects.Asked w w') :
    scope.Reaches w w' := by
  induction h with
  | refl => exact .refl
  | tail _ hask ih => exact ih.tail (.ask hask)

/-- For the string form of an object the host is asked at most once; that of a list is known. -/
theorem Objects.asked_text (host : Objects σ) (o : ObjectRef) (w : World σ) :
    host.Asked w ((host.text o).run w).2 := by
  unfold text
  split
  · exact .refl
  · exact .single (.describe o)

/-- For the number of elements of an object the host is asked at most once. -/
theorem Objects.asked_count (host : Objects σ) (o : ObjectRef) (w : World σ) :
    host.Asked w ((host.count o).run w).2 := by
  unfold count
  split
  · exact .refl
  · exact .single (.length o)

theorem Objects.asked_at? (host : Objects σ) (o : ObjectRef) (index : Int32) (w : World σ) :
    host.Asked w ((host.at? o index).run w).2 := by
  unfold at?
  split
  · split
    · exact .refl
    · exact .single (.element o _)
  · exact .refl

/-- An object that has no element where it is asked for one is asked for its length next. -/
theorem Objects.asked_element (host : Objects σ) (o : ObjectRef) (index : Int32) (w : World σ) :
    host.Asked w ((host.element o index).run w).2 := by
  have hat := host.asked_at? o index w
  rw [run_element]
  split
  · rcases hrun : (host.at? o index).run w with ⟨_ | v, w'⟩
    · rw [hrun] at hat
      exact hat.trans (host.asked_count o w')
    · rw [hrun] at hat
      exact hat
  · exact .refl

/-- A binary operator asks at most for the string form of one of its operands. -/
theorem asked_evaluateBinary (host : Objects σ) (op : Op) (a b : Value) (w : World σ) :
    host.Asked w ((evaluateBinary host op a b).run w).2 := by
  rw [run_evaluateBinary]
  unfold askText
  cases spelled? a b with
  | none => exact .refl
  | some o => exact host.asked_text o w

variable {scope : Scope σ}

/-- Selectors that are asked for a name one after the other answer one after the other. -/
theorem reaches_selectFirst (owner? : Option ObjectRef) (name : String) {list : List (Selector σ)}
    (h : ∀ s ∈ list, s ∈ scope.selectors.map (·.2)) (w : World σ) :
    scope.Reaches w ((Selector.selectFirst owner? name list).run w).2 := by
  induction list generalizing w with
  | nil => exact .refl
  | cons s ss ih =>
    rcases List.forall_mem_cons.mp h with ⟨hs, hss⟩
    have hfirst : scope.Reaches w ((s.select owner? name).run w).2 :=
      (Scope.Moves.select hs owner? name).reaches
    simp only [Selector.selectFirst, bind, StateT.bind, StateT.run] at hfirst ⊢
    rcases hrun : s.select owner? name w with ⟨_ | v, w'⟩
    · rw [hrun] at hfirst
      exact hfirst.trans (ih hss w')
    · rw [hrun] at hfirst
      exact hfirst

/-- Selectors that are offered an assignment one after the other answer one after the other. -/
theorem reaches_assignFirst (owner? : Option ObjectRef) (name : String) (v : Value)
    {list : List (Selector σ)} (h : ∀ s ∈ list, s ∈ scope.selectors.map (·.2)) (w : World σ) :
    scope.Reaches w ((Selector.assignFirst owner? name v list).run w).2 := by
  induction list generalizing w with
  | nil => exact .refl
  | cons s ss ih =>
    rcases List.forall_mem_cons.mp h with ⟨hs, hss⟩
    have hfirst : scope.Reaches w ((s.assign owner? name v).run w).2 :=
      (Scope.Moves.assign hs owner? name v).reaches
    simp only [Selector.assignFirst, bind, StateT.bind, StateT.run] at hfirst ⊢
    rcases hrun : s.assign owner? name v w with ⟨_ | _, w'⟩
    · rw [hrun] at hfirst
      exact hfirst.trans (ih hss w')
    · rw [hrun] at hfirst
      exact hfirst

end

/-! ## Calls written down -/

/-- A call to the host. -/
inductive HostCall where
  /-- A selector is asked for a name, alone or as a member. -/
  | select (id : SelectorId) (owner? : Option ObjectRef) (name : String)
  /-- A selector is offered an assignment. -/
  | assign (id : SelectorId) (owner? : Option ObjectRef) (name : String) (v : Value)
  /-- An object is asked for a member of its own. -/
  | selectMember (owner : ObjectRef) (name : String)
  /-- An object is offered an assignment to a member of its own. -/
  | assignMember (owner : ObjectRef) (name : String) (v : Value)
  /-- An object of a type is made. -/
  | create (typeName : String)
  /-- A field of a new object is set, or refused with an error. -/
  | setField (typeName : String) (object : ObjectRef) (field : String) (v : Value)
    (error? : Option EvalError)

/-- The world without the calls written down beside its state. -/
def World.unrecorded {σ : Type} (w : World (σ × List HostCall)) : World σ :=
  ⟨w.state.1, w.nextIdentity⟩

/-- The world with calls written down beside its state. -/
def World.withCalls {σ : Type} (w : World σ) (calls : List HostCall) :
    World (σ × List HostCall) :=
  ⟨(w.state, calls), w.nextIdentity⟩

/-- An answer of the host, with the calls that it makes up written down behind those before. -/
def recording {σ α : Type} (calls : α → List HostCall) (answer : StateM (World σ) α) :
    StateM (World (σ × List HostCall)) α :=
  fun w =>
    let (a, w') := answer w.unrecorded
    (a, w'.withCalls (w.state.2 ++ calls a))

/-- How the host answers for its objects, with the calls for their members written down. -/
def Objects.recorded {σ : Type} (host : Objects σ) : Objects (σ × List HostCall) where
  describe o := recording (fun _ => []) (host.describe o)
  length o := recording (fun _ => []) (host.length o)
  element? o position := recording (fun _ => []) (host.element? o position)
  select owner name := recording (fun _ => [.selectMember owner name]) (host.select owner name)
  assign owner name v := recording (fun _ => [.assignMember owner name v]) (host.assign owner name v)

/-- The selector of a handle, with its calls written down. -/
def Selector.recorded {σ : Type} (s : Selector σ) (id : SelectorId) :
    Selector (σ × List HostCall) where
  select owner? name := recording (fun _ => [.select id owner? name]) (s.select owner? name)
  assign owner? name v := recording (fun _ => [.assign id owner? name v]) (s.assign owner? name v)

/-- The initializer of a type, with its calls written down. -/
def Initializer.recorded {σ : Type} (initializer : Initializer σ) (typeName : String) :
    Initializer (σ × List HostCall) where
  create := recording (fun _ => [.create typeName]) initializer.create
  setField object field v :=
    recording (fun
      | .ok _ => [.setField typeName object field v none]
      | .error e => [.setField typeName object field v (some e)])
      (initializer.setField object field v)

/-- Setting a field has the outcome that it has without a record, and is written down once. -/
theorem Initializer.run_setField_recorded {σ : Type} (initializer : Initializer σ)
    (typeName : String) (object : ObjectRef) (field : String) (v : Value)
    (w : World (σ × List HostCall)) :
    ((initializer.recorded typeName).setField object field v).run w
      = match (initializer.setField object field v).run w.unrecorded with
        | (.ok made, w') =>
          (.ok made, w'.withCalls (w.state.2 ++ [.setField typeName object field v none]))
        | (.error e, w') =>
          (.error e, w'.withCalls (w.state.2 ++ [.setField typeName object field v (some e)])) := by
  dsimp only [Initializer.recorded, recording, ExceptT.run]
  rcases initializer.setField object field v w.unrecorded with ⟨e | made, w'⟩
  · rfl
  · rfl

/-- The scope with every call written down. -/
def Scope.recorded {σ : Type} (scope : Scope σ) : Scope (σ × List HostCall) where
  objects := scope.objects.recorded
  selectors := scope.selectors.map fun (id, s) => (id, s.recorded id)
  initializers := ⟨scope.initializers.entries.map fun (typeName, initializer) =>
    (typeName, initializer.recorded typeName)⟩

/-- The machine without the calls written down. -/
def Machine.unrecorded {σ : Type} (m : Machine (σ × List HostCall)) : Machine σ :=
  ⟨m.stack, m.world.unrecorded⟩

/-- The machine with no call written down yet. -/
def Machine.recorded {σ : Type} (m : Machine σ) : Machine (σ × List HostCall) :=
  ⟨m.stack, ⟨(m.world.state, []), m.world.nextIdentity⟩⟩

/-- The calls that evaluating the expression makes, in their order. -/
def Node.hostCalls {σ : Type} (n : Node) (scope : Scope σ) (m : Machine σ) : List HostCall :=
  ((eval n).perform scope.recorded m.recorded).2.world.state.2

/-! ## Recording changes nothing else -/

namespace EvalM

variable {σ α β : Type} {scope : Scope σ}

/-- With the calls written down the action does what it does without. -/
structure Records (scope : Scope σ) (act' : EvalM (σ × List HostCall) α) (act : EvalM σ α) :
    Prop where
  perform_eq : ∀ m, act.perform scope m.unrecorded
    = ((act'.perform scope.recorded m).1, (act'.perform scope.recorded m).2.unrecorded)

/-- Two steps that each change nothing by being recorded change nothing together. -/
theorem Records.bind {act' : EvalM (σ × List HostCall) α} {act : EvalM σ α}
    {next' : α → EvalM (σ × List HostCall) β} {next : α → EvalM σ β}
    (hact : Records scope act' act) (hnext : ∀ a, Records scope (next' a) (next a)) :
    Records scope (act' >>= next') (act >>= next) := by
  refine ⟨fun m => ?_⟩
  rw [perform_bind, perform_bind, hact.perform_eq]
  rcases act'.perform scope.recorded m with ⟨e | a, m'⟩
  · rfl
  · exact (hnext a).perform_eq m'

theorem Records.pure (a : α) : Records scope (pure a) (pure a) :=
  ⟨fun _ => rfl⟩

theorem Records.throw (e : EvalError) :
    Records scope (throw e : EvalM (σ × List HostCall) α) (throw e) :=
  ⟨fun _ => rfl⟩

theorem Records.ofOutcome (outcome : Except EvalError α) :
    Records scope (ofOutcome outcome) (ofOutcome outcome) :=
  ⟨fun _ => rfl⟩

/-- The stack knows nothing of the record. -/
theorem Records.onStack (f : Stack → Except CapacityError (α × Stack)) :
    Records scope (onStack f) (onStack f) := by
  refine ⟨fun m => ?_⟩
  rw [perform_onStack, perform_onStack]
  dsimp only [Machine.unrecorded]
  cases f m.stack with
  | error e => rfl
  | ok result => rfl

/-- An answer of the host that is written down must be the same answer, and leave the same world but
for the record. -/
theorem Records.onWorld {f' : StateM (World (σ × List HostCall)) α} {f : StateM (World σ) α}
    (h : ∀ w, f w.unrecorded = ((f' w).1, (f' w).2.unrecorded)) :
    Records scope (onWorld f') (onWorld f) := by
  refine ⟨fun m => ?_⟩
  rw [perform_onWorld, perform_onWorld]
  show (Except.ok (f m.world.unrecorded).1, (⟨m.stack, (f m.world.unrecorded).2⟩ : Machine σ)) = _
  rw [h]
  rfl

theorem Records.onWorldExcept {f' : ExceptT EvalError (StateM (World (σ × List HostCall))) α}
    {f : ExceptT EvalError (StateM (World σ)) α}
    (h : ∀ w, f w.unrecorded = ((f' w).1, (f' w).2.unrecorded)) :
    Records scope (onWorldExcept f') (onWorldExcept f) := by
  refine ⟨fun m => ?_⟩
  rw [perform_onWorldExcept, perform_onWorldExcept]
  show ((f m.world.unrecorded).1, (⟨m.stack, (f m.world.unrecorded).2⟩ : Machine σ)) = _
  rw [h]
  rfl

/-- What is read off the scope is the recorded form of what is read off it otherwise. -/
theorem Records.read {next' : Scope (σ × List HostCall) → EvalM (σ × List HostCall) β}
    {next : Scope σ → EvalM σ β} (h : Records scope (next' scope.recorded) (next scope)) :
    Records scope (read >>= next') (read >>= next) :=
  ⟨fun m => h.perform_eq m⟩

/-- The objects of the recorded scope stand for those of the scope. -/
theorem Records.objects {next' : Objects (σ × List HostCall) → EvalM (σ × List HostCall) β}
    {next : Objects σ → EvalM σ β}
    (h : Records scope (next' scope.objects.recorded) (next scope.objects)) :
    Records scope (objects >>= next') (objects >>= next) :=
  ⟨fun m => h.perform_eq m⟩

/-! ### Values -/

theorem records_pushScalar {γ : Type} [Scalar γ] (kind : Kind) (v : γ) :
    Records scope (pushScalar kind v) (pushScalar kind v) :=
  .onStack _

theorem records_pushObject (kind : Kind) (v : Value) :
    Records scope (pushObject kind v) (pushObject kind v) :=
  .onStack _

/-- Pushing and popping are steps of the stack alone, and so have nothing to record. -/
theorem records_pushValue (v : Value) : Records scope (pushValue v) (pushValue v) := by
  cases v with
  | void => exact .pure _
  | int v => exact records_pushScalar .int v
  | float v => exact records_pushScalar .float v
  | bool v => exact records_pushScalar .bool v
  | str v => exact records_pushObject .string (.str v)
  | object v => exact records_pushObject .object (.object v)
  | null => exact records_pushObject .object .null

theorem records_popScalar (γ : Type) [Scalar γ] :
    Records scope (popScalar γ) (popScalar γ) :=
  .onStack _

theorem records_popValue (info : ValueInfo) : Records scope (popValue info) (popValue info) := by
  unfold popValue
  cases info.kind with
  | void => exact .pure _
  | int => exact (records_popScalar Int32).bind fun _ => .pure _
  | float => exact (records_popScalar Binary32).bind fun _ => .pure _
  | bool => exact (records_popScalar Bool).bind fun _ => .pure _
  | string | object => exact .onStack _

/-- An error behind a removed value is the error that it is without a record. -/
theorem records_removeTop_throw (info : ValueInfo) (e : EvalError) :
    Records scope (do removeTop info; throw e : EvalM (σ × List HostCall) α)
      (do removeTop info; throw e) :=
  ((records_popValue info).bind fun _ => .pure ()).bind fun _ => .throw e

/-- What is popped of a result is recorded as the result is. -/
theorem records_popped {act' : EvalM (σ × List HostCall) ValueInfo} {act : EvalM σ ValueInfo}
    (h : Records scope act' act) : Records scope (popped act') (popped act) :=
  h.bind records_popValue

theorem records_popElement (element : Kind) (info : ValueInfo) :
    Records scope (popElement element info) (popElement element info) := by
  have hint : Records scope (popInt info) (popInt info) := by
    unfold popInt
    split
    · exact records_popScalar Int32
    · exact records_removeTop_throw info _
  have hfloat : Records scope (popFloat info) (popFloat info) := by
    unfold popFloat
    split
    · exact records_popScalar Binary32
    · exact (records_popScalar Int32).bind fun _ => .pure _
    · exact records_removeTop_throw info _
  have hbool : Records scope (popBool info) (popBool info) := by
    unfold popBool
    split
    · exact records_popScalar Bool
    · exact records_removeTop_throw info _
  have hstring : Records scope (popString info) (popString info) := by
    refine (records_popValue info).bind fun v => ?_
    cases v with
    | str v => exact .pure v
    | _ => exact .throw _
  -- Elements of a kind are popped as values of that kind.
  cases element with
  | int => exact hint.bind fun _ => .pure _
  | float => exact hfloat.bind fun _ => .pure _
  | bool => exact hbool.bind fun _ => .pure _
  | string => exact hstring.bind fun _ => .pure _
  | object | void => exact records_popValue info

/-! ### Names and members -/

/-- The first selector that knows a name is the same with a record and without. -/
theorem selectFirst_recorded (owner? : Option ObjectRef) (name : String)
    (selectors : List (SelectorId × Selector σ)) (w : World (σ × List HostCall)) :
    Selector.selectFirst owner? name (selectors.map (·.2)) w.unrecorded
      = ((Selector.selectFirst owner? name (selectors.map fun p => p.2.recorded p.1) w).1,
        (Selector.selectFirst owner? name (selectors.map fun p => p.2.recorded p.1)
          w).2.unrecorded) := by
  -- A selector that declines hands on the state with its call written down.
  induction selectors generalizing w with
  | nil => rfl
  | cons p ps ih =>
    simp only [List.map_cons, Selector.selectFirst, bind, StateT.bind, Selector.recorded,
      recording]
    rcases p.2.select owner? name w.unrecorded with ⟨_ | v, w'⟩
    · exact ih ⟨(w'.state, _), w'.nextIdentity⟩
    · rfl

/-- The first selector that accepts an assignment is the same with a record and without. -/
theorem assignFirst_recorded (owner? : Option ObjectRef) (name : String) (v : Value)
    (selectors : List (SelectorId × Selector σ)) (w : World (σ × List HostCall)) :
    Selector.assignFirst owner? name v (selectors.map (·.2)) w.unrecorded
      = ((Selector.assignFirst owner? name v (selectors.map fun p => p.2.recorded p.1) w).1,
        (Selector.assignFirst owner? name v (selectors.map fun p => p.2.recorded p.1)
          w).2.unrecorded) := by
  -- A selector that declines hands on the state with its call written down.
  induction selectors generalizing w with
  | nil => rfl
  | cons p ps ih =>
    simp only [List.map_cons, Selector.assignFirst, bind, StateT.bind, Selector.recorded,
      recording]
    rcases p.2.assign owner? name v w.unrecorded with ⟨_ | _, w'⟩
    · exact ih ⟨(w'.state, _), w'.nextIdentity⟩
    · rfl

/-- The selectors of the recorded scope are those of the scope, each with its own handle in the
record. -/
theorem selectors_recorded :
    scope.recorded.selectors.map (·.2) = scope.selectors.map fun p => p.2.recorded p.1 := by
  simp [Scope.recorded, List.map_map, Function.comp_def]

/-- The selectors are asked in the same order, each in its recorded form. -/
theorem Records.selectors
    {next' : List (Selector (σ × List HostCall)) → EvalM (σ × List HostCall) β}
    {next : List (Selector σ) → EvalM σ β}
    (h : Records scope (next' (scope.selectors.map fun p => p.2.recorded p.1))
      (next (scope.selectors.map (·.2)))) :
    Records scope (selectors >>= next') (selectors >>= next) := by
  refine ⟨fun m => ?_⟩
  rw [← selectors_recorded] at h
  exact h.perform_eq m

theorem records_selectFirst (owner? : Option ObjectRef) (name : String) :
    Records scope
      (onWorld (Selector.selectFirst owner? name (scope.selectors.map fun p => p.2.recorded p.1)))
      (onWorld (Selector.selectFirst owner? name (scope.selectors.map (·.2)))) :=
  .onWorld (selectFirst_recorded owner? name scope.selectors)

theorem records_assignFirst (owner? : Option ObjectRef) (name : String) (v : Value) :
    Records scope
      (onWorld (Selector.assignFirst owner? name v
        (scope.selectors.map fun p => p.2.recorded p.1)))
      (onWorld (Selector.assignFirst owner? name v (scope.selectors.map (·.2)))) :=
  .onWorld (assignFirst_recorded owner? name v scope.selectors)

/-! ### Objects -/

/-- A question to an object is answered as it is without the calls, and they stay as they are. -/
def AsksAlike (f' : StateM (World (σ × List HostCall)) α) (f : StateM (World σ) α) : Prop :=
  ∀ w, f'.run w = ((f.run w.unrecorded).1, (f.run w.unrecorded).2.withCalls w.state.2)

/-- Questions to objects that are asked alike have the same answers and leave the same world, the
record left out. -/
theorem AsksAlike.unrecorded {f' : StateM (World (σ × List HostCall)) α} {f : StateM (World σ) α}
    (h : AsksAlike f' f) (w : World (σ × List HostCall)) :
    f w.unrecorded = ((f' w).1, (f' w).2.unrecorded) := by
  have hw := h w
  simp only [StateT.run] at hw
  rw [hw]
  rfl

theorem asksAlike_pure (a : α) :
    AsksAlike (pure a : StateM (World (σ × List HostCall)) α) (pure a) :=
  fun _ => rfl

/-- A question to an object is no call: nothing is written down. -/
theorem asksAlike_recording (f : StateM (World σ) α) : AsksAlike (recording (fun _ => []) f) f := by
  intro w
  simp only [recording, StateT.run, List.append_nil]
  rfl

section

variable (host : Objects σ) (o : ObjectRef)

theorem asksAlike_text : AsksAlike (host.recorded.text o) (host.text o) := by
  unfold Objects.text
  cases o.elements with
  | items kind items => exact asksAlike_pure _
  | none | hosted kind => exact asksAlike_recording _

theorem asksAlike_count : AsksAlike (host.recorded.count o) (host.count o) := by
  unfold Objects.count
  cases o.elements with
  | items kind items => exact asksAlike_pure _
  | none | hosted kind => exact asksAlike_recording _

theorem asksAlike_at? (index : Int32) :
    AsksAlike (host.recorded.at? o index) (host.at? o index) := by
  unfold Objects.at?
  split
  · cases o.elements with
    | items kind items => exact asksAlike_pure _
    | none | hosted kind => exact asksAlike_recording _
  · exact asksAlike_pure _

/-- The element of an object is one question or two, and both are asked alike. -/
theorem asksAlike_element (index : Int32) :
    AsksAlike (host.recorded.element o index).run (host.element o index).run := by
  intro w
  show (host.recorded.element o index).run w = _
  rw [Objects.run_element]
  show _ = (((host.element o index).run w.unrecorded).1,
    ((host.element o index).run w.unrecorded).2.withCalls w.state.2)
  rw [Objects.run_element]
  split
  · rw [asksAlike_at? host o index w]
    rcases (host.at? o index).run w.unrecorded with ⟨_ | v, w'⟩
    · dsimp only
      rw [asksAlike_count host o]
      rfl
    · rfl
  · rfl

/-- An operator asks the same object for its string form, if any. -/
theorem asksAlike_evaluateBinary (op : Op) (a b : Value) :
    AsksAlike (evaluateBinary host.recorded op a b).run (evaluateBinary host op a b).run := by
  have htext : AsksAlike (askText host.recorded a b) (askText host a b) := by
    unfold askText
    cases spelled? a b with
    | none => exact asksAlike_pure _
    | some o => exact asksAlike_text host o
  intro w
  show (evaluateBinary host.recorded op a b).run w = _
  rw [run_evaluateBinary, htext w]
  rfl

end

theorem records_listElement (owner : ObjectRef) (index : Int32) :
    Records scope (listElement owner index) (listElement owner index) :=
  Records.objects <|
    (Records.onWorldExcept (asksAlike_element scope.objects owner index).unrecorded).bind
      records_pushValue

theorem records_evaluateBinary (op : Op) (a b : Value) :
    Records scope (do onWorldExcept (evaluateBinary (← objects) op a b))
      (do onWorldExcept (evaluateBinary (← objects) op a b)) :=
  Records.objects (.onWorldExcept (asksAlike_evaluateBinary scope.objects op a b).unrecorded)

theorem records_selectName (name : String) :
    Records scope (selectName name) (selectName name) := by
  refine Records.selectors ((records_selectFirst none name).bind fun found => ?_)
  cases found with
  | none => exact .throw _
  | some v => exact records_pushValue v

/-- A member is looked up in its owner or in the selectors, and either way recorded alike. -/
theorem records_selectMember (owner : ObjectRef) (name : String) :
    Records scope (selectMember owner name) (selectMember owner name) := by
  unfold selectMember
  split
  · exact Records.objects ((Records.onWorld (asksAlike_count scope.objects owner).unrecorded).bind
      fun _ => records_pushValue _)
  · split
    · refine Records.objects ((Records.onWorld fun w => rfl).bind fun found => ?_)
      cases found with
      | none => exact .throw _
      | some v => exact records_pushValue v
    · refine Records.selectors ((records_selectFirst (some owner) name).bind fun found => ?_)
      split
      · split
        · exact records_listElement owner _
        · exact records_pushValue _
      · exact records_pushValue _
      · exact .throw _

theorem records_memberOf (owner : ObjectRef) (member : Node) :
    Records scope (memberOf owner member) (memberOf owner member) := by
  unfold memberOf
  split
  · exact records_selectMember owner _
  · exact records_listElement owner _
  · exact .throw _

theorem records_memberOwner (v : Value) :
    Records scope (memberOwner v) (memberOwner v) := by
  unfold memberOwner
  split
  · exact .pure _
  · exact .throw _
  · exact .throw _

theorem records_assignValue (owner? : Option ObjectRef) (name : String) (v : Value) :
    Records scope (assignValue owner? name v) (assignValue owner? name v) := by
  have hlast : ∀ accepted : Bool, Records scope
      (if accepted then pushValue v else throw (.unassignableIdentifier name))
      (if accepted then pushValue v else throw (.unassignableIdentifier name)) := by
    intro accepted
    cases accepted with
    | true => exact records_pushValue v
    | false => exact .throw _
  unfold assignValue
  cases owner? with
  | none =>
    exact Records.bind (Records.selectors (records_assignFirst none name v)) hlast
  | some owner =>
    simp only
    split
    · exact Records.objects (Records.bind (Records.onWorld fun w => rfl) hlast)
    · exact Records.bind (Records.selectors (records_assignFirst (some owner) name v)) hlast

theorem records_pushList (element : Kind) (items : List Value) :
    Records scope (pushList element items) (pushList element items) :=
  (Records.onWorld fun _ => rfl).bind fun _ => records_pushValue _

/-- The initializer of a type is recorded under the name of the type. -/
theorem find?_recorded (typeName : String) :
    scope.recorded.initializers.find? typeName
      = (scope.initializers.find? typeName).map (·.recorded typeName) := by
  unfold Table.find? Scope.recorded
  induction scope.initializers.entries with
  | nil => rfl
  | cons entry entries ih =>
    rcases entry with ⟨other, initializer⟩
    rw [List.map_cons, List.lookup_cons, List.lookup_cons]
    by_cases h : typeName = other
    · subst h
      simp
    · rw [beq_false_of_ne h]
      exact ih

/-- What the recorded host answers, the host answers. -/
theorem moves_of_recorded {w w' : World (σ × List HostCall)} (h : scope.recorded.Moves w w') :
    scope.Moves w.unrecorded w'.unrecorded := by
  -- Each answer of the recorded host is the answer of the host that it was made of.
  cases h with
  | fresh => exact .fresh
  | ask h =>
    cases h with
    | describe o => exact .ask (.describe o)
    | length o => exact .ask (.length o)
    | element o position => exact .ask (.element o position)
  | selectMember owner name => exact .selectMember owner name
  | assignMember owner name v => exact .assignMember owner name v
  | select h owner? name =>
    rw [selectors_recorded] at h
    rcases List.mem_map.mp h with ⟨p, hp, rfl⟩
    exact .select (List.mem_map_of_mem hp) owner? name
  | assign h owner? name v =>
    rw [selectors_recorded] at h
    rcases List.mem_map.mp h with ⟨p, hp, rfl⟩
    exact .assign (List.mem_map_of_mem hp) owner? name v
  | create h =>
    rw [find?_recorded] at h
    rcases Option.map_eq_some_iff.mp h with ⟨initializer, hfind, rfl⟩
    exact .create hfind
  | setField h object field v =>
    rw [find?_recorded] at h
    rcases Option.map_eq_some_iff.mp h with ⟨initializer, hfind, rfl⟩
    exact .setField hfind object field v

/-- A world that the recorded host reaches is one that the host reaches, the record left out. -/
theorem reaches_of_recorded {w w' : World (σ × List HostCall)} (h : scope.recorded.Reaches w w') :
    scope.Reaches w.unrecorded w'.unrecorded := by
  induction h with
  | refl => exact .refl
  | tail _ hmove ih => exact ih.tail (moves_of_recorded hmove)

end EvalM

/-! ### Expressions -/

open EvalM

variable {σ : Type} {scope : Scope σ}

/-- An expression is evaluated with the calls written down as it is without. -/
theorem records_eval (n : Node) : Records scope (eval n) (eval n) := by
  -- The fields are set by the initializer as the recorded scope has it, under the name of a type.
  induction n using Node.inductionOn
    (motive_2 := fun fields => ∀ initializer object typeName,
      Records scope (evalFields (initializer.recorded typeName) object fields)
        (evalFields initializer object fields))
    (motive_3 := fun items => ∀ element,
      Records scope (evalItems element items) (evalItems element items))
  with
  | literal n v hv =>
    rw [eval_of_literal? hv, eval_of_literal? hv]
    exact records_pushValue v
  | ident name =>
    rw [eval, eval]
    exact records_selectName name
  | list element items hitems =>
    rw [eval, eval]
    exact (hitems element).bind fun _ => records_pushList element _
  | construct typeName fields hfields =>
    rw [eval, eval]
    by_cases hname : typeName = ""
    · simp only [hname, if_true]
      exact .throw _
    · simp only [hname, if_false]
      -- Both scopes know the same types, and the initializer of each in its own form.
      refine Records.read ?_
      rw [find?_recorded]
      cases scope.initializers.find? typeName with
      | none => exact .throw _
      | some initializer =>
        refine (Records.onWorld fun w => rfl).bind fun object => ?_
        exact (hfields initializer object typeName).bind fun _ => records_pushValue _
  | wrongArity op operands harity =>
    rw [eval_apply_of_length_ne harity, eval_apply_of_length_ne harity]
    exact .throw _
  | ternary condition yes no hcondition hyes hno =>
    rw [eval_ternary, eval_ternary]
    refine hcondition.bind fun info => ?_
    split
    · refine (records_popScalar Bool).bind fun b => ?_
      cases b with
      | true => exact hyes
      | false => exact hno
    · exact records_removeTop_throw info _
  | member owner member howner =>
    rw [eval_member, eval_member]
    exact (records_popped howner).bind fun v =>
      (records_memberOwner v).bind fun owner => records_memberOf owner member
  | assignIdent name right hright =>
    rw [eval_assign_ident, eval_assign_ident]
    exact (records_popped hright).bind fun v => records_assignValue none name v
  | assignMember owner name right howner hright =>
    rw [eval_assign_member, eval_assign_member]
    exact (records_popped howner).bind fun v =>
      (records_memberOwner v).bind fun owner =>
        (records_popped hright).bind fun v => records_assignValue (some owner) name v
  | assignOther target right htarget =>
    -- No target, and neither is the host asked for anything.
    rw [eval_assign_of_not_isTarget htarget, eval_assign_of_not_isTarget htarget]
    exact .throw _
  | unary op operand hunary hoperand =>
    rw [eval_unary hunary, eval_unary hunary]
    exact (records_popped hoperand).bind fun v =>
      (Records.ofOutcome _).bind fun _ => records_pushValue _
  | binary op left right hbinary hmember hassign hleft hright =>
    rw [eval_binary hbinary hmember hassign, eval_binary hbinary hmember hassign]
    refine (records_popped hleft).bind fun a => ?_
    split
    · exact records_pushValue _
    · exact (records_popped hright).bind fun b =>
        (records_evaluateBinary op a b).bind fun _ => records_pushValue _
  | noField initializer object typeName =>
    rw [evalFields, evalFields]
    exact .pure _
  | field name right fields hright hfields initializer object typeName =>
    rw [evalFields, evalFields]
    refine (records_popped hright).bind fun v => ?_
    exact (Records.onWorldExcept fun w => rfl).bind fun object' => hfields initializer object' typeName
  | otherField n fields hfield initializer object typeName =>
    rw [evalFields_of_not_isField hfield, evalFields_of_not_isField hfield]
    exact .throw _
  | noItem element =>
    rw [evalItems, evalItems]
    exact .pure _
  | item n items hn hitems element =>
    rw [evalItems, evalItems]
    refine hn.bind fun info => ?_
    exact (records_popElement element info).bind fun v =>
      (hitems element).bind fun vs => .pure _

end Edict
