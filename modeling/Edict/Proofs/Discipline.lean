import Edict.Proofs.HostCalls

namespace Edict

/-! # The stack discipline of evaluation

Whatever the host answers, evaluating an expression adds its value to the stack or nothing at all,
and what becomes of the world is made by answers of the host.  `Ends` says so of one action; it
passes through `>>=` (`Ends.bind`), so that each construct of the language needs one short argument
and an induction over expressions puts them together.

Main statements:

* `ends_eval`: an expression ends with its value on top, or fails with the stack as it was;
* `eval_stack_discipline`: the same in full, with the evaluations to a wanted kind and the errors
  that cannot come up.
-/

/-- The errors that tell of bytes or objects used as what they are not. -/
def EvalError.isMisuse : EvalError → Bool
  | .capacity (.underflow _ _) => true
  | .capacity (.invalidOffset _ _) => true
  | .capacity (.objectIndexMismatch _ _) => true
  | _ => false

/-- Whether the error is about the stack, be it too small or used as what it is not. -/
def EvalError.isCapacity : EvalError → Bool
  | .capacity _ => true
  | _ => false

/-- An error that is none of the stack is no misuse of it. -/
theorem EvalError.isMisuse_of_isCapacity {e : EvalError} (h : e.isCapacity = false) :
    e.isMisuse = false := by
  cases e with
  | capacity e => cases h
  | _ => rfl

/-- Whether the value is a number, a truth value, a string or `null`, neither `void` nor an object. -/
def Value.isPlain : Value → Bool
  | .void | .object _ => false
  | _ => true

namespace EvalM

variable {σ α β : Type} {scope : Scope σ} {s start : Stack}

/-- The error is what an initializer of the scope has just answered to a field, which has left the
world `w`. -/
def FieldFault (scope : Scope σ) (e : EvalError) (w : World σ) : Prop :=
  ∃ typeName initializer object field v before,
    scope.initializers.find? typeName = some initializer ∧
    (initializer.setField object field v).run before = (.error e, w)

/-- Begun on the stack `start`, the action has a result and leaves a stack that `post` allows, or
fails and leaves the stack `s`.  It never fails for a misuse of the stack of its own, and it leaves
a world that answers of the host lead to. -/
structure Ends (scope : Scope σ) (s start : Stack) (act : EvalM σ α)
    (post : α → Stack → Prop) : Prop where
  outcome : ∀ w, match act.perform scope ⟨start, w⟩ with
    | (.ok a, m) => post a m.stack
    | (.error e, m) => m.stack = s ∧ (e.isMisuse = false ∨ FieldFault scope e m.world)
  reaches : ∀ w, scope.Reaches w (act.perform scope ⟨start, w⟩).2.world

/-- One value has been left on top of `s`, where `info` says, and there was room for it. -/
def Leaves (s : Stack) (info : ValueInfo) (s' : Stack) : Prop :=
  ∃ v, info = s.place v ∧ s' = s.holding v ∧ s.overflow? v = none

/-- The stack is `s` again. -/
def Back (s : Stack) (_ : α) (s' : Stack) : Prop := s' = s

/-! ## Building blocks -/

/-- Two steps one after the other: the second begins on a stack that the first may end on. -/
theorem Ends.bind {act : EvalM σ α} {next : α → EvalM σ β} {mid : α → Stack → Prop}
    {post : β → Stack → Prop} (hact : Ends scope s start act mid)
    (hnext : ∀ a s', mid a s' → Ends scope s s' (next a) post) :
    Ends scope s start (act >>= next) post := by
  constructor
  · intro w
    rw [perform_bind]
    have h := hact.outcome w
    rcases hp : act.perform scope ⟨start, w⟩ with ⟨e | a, s', w'⟩
    · rw [hp] at h
      exact h
    · rw [hp] at h
      exact (hnext a s' h).outcome w'
  · intro w
    rw [perform_bind]
    have h := hact.outcome w
    have hreaches := hact.reaches w
    rcases hp : act.perform scope ⟨start, w⟩ with ⟨e | a, s', w'⟩
    · rw [hp] at hreaches
      exact hreaches
    · rw [hp] at h hreaches
      exact hreaches.trans ((hnext a s' h).reaches w')

/-- What follows an action that ends where it began begins there too. -/
theorem Ends.andThen {act : EvalM σ α} {next : α → EvalM σ β} {post : β → Stack → Prop}
    (hact : Ends scope s start act (Back s)) (hnext : ∀ a, Ends scope s s (next a) post) :
    Ends scope s start (act >>= next) post := by
  refine hact.bind fun a s' hs => ?_
  obtain rfl : s' = s := hs
  exact hnext a

/-- What a step ends with may be said less exactly. -/
theorem Ends.mono {act : EvalM σ α} {post post' : α → Stack → Prop}
    (h : Ends scope s start act post) (himp : ∀ a s', post a s' → post' a s') :
    Ends scope s start act post' := by
  refine ⟨fun w => ?_, h.reaches⟩
  have hw := h.outcome w
  rcases hp : act.perform scope ⟨start, w⟩ with ⟨e | a, s', w'⟩
  · rw [hp] at hw
    exact hw
  · rw [hp] at hw
    exact himp a s' hw

theorem Ends.pure {a : α} {post : α → Stack → Prop} (h : post a start) :
    Ends scope s start (pure a) post :=
  ⟨fun _ => h, fun _ => .refl⟩

/-- An error thrown in front of the stack that the step began on leaves it there. -/
theorem Ends.throw {e : EvalError} {post : α → Stack → Prop} (h : e.isMisuse = false) :
    Ends scope s s (throw e) post :=
  ⟨fun _ => ⟨rfl, .inl h⟩, fun _ => .refl⟩

/-- The host answers and leaves the stack alone. -/
theorem Ends.onWorld {f : StateM (World σ) α} (h : ∀ w, scope.Reaches w (f.run w).2) :
    Ends scope s s (onWorld f) (Back s) :=
  ⟨fun _ => rfl, h⟩

/-- An answer that may be an error, but not one about the stack. -/
theorem Ends.onWorldExcept {f : ExceptT EvalError (StateM (World σ)) α}
    (hreaches : ∀ w, scope.Reaches w (f.run w).2)
    (h : ∀ w e w', f.run w = (.error e, w') → e.isCapacity = false) :
    Ends scope s s (onWorldExcept f) (Back s) := by
  refine ⟨fun w => ?_, hreaches⟩
  rw [perform_onWorldExcept]
  rcases hrun : f.run w with ⟨e | a, w'⟩
  · exact ⟨rfl, .inl (EvalError.isMisuse_of_isCapacity (h w e w' hrun))⟩
  · rfl

theorem Ends.read : Ends scope s s read (fun scope' s' => scope' = scope ∧ s' = s) :=
  ⟨fun _ => ⟨rfl, rfl⟩, fun _ => .refl⟩

/-- The objects that an action asks are those of the scope. -/
theorem Ends.objects {next : Objects σ → EvalM σ α} {post : α → Stack → Prop}
    (h : Ends scope s start (next scope.objects) post) :
    Ends scope s start (objects >>= next) post :=
  ⟨fun w => h.outcome w, fun w => h.reaches w⟩

/-- An outcome that is no error of the stack can be had on any stack. -/
theorem Ends.ofOutcome {outcome : Except EvalError α}
    (h : ∀ e, outcome = .error e → e.isCapacity = false) :
    Ends scope s s (ofOutcome outcome) (Back s) := by
  refine ⟨fun w => ?_, fun _ => .refl⟩
  cases outcome with
  | ok a => rfl
  | error e => exact ⟨rfl, .inl (EvalError.isMisuse_of_isCapacity (h e rfl))⟩

/-- Setting a field is the one step that may bring in an error of any kind. -/
theorem Ends.setField {typeName : String} {initializer : Initializer σ}
    (h : scope.initializers.find? typeName = some initializer) (object : ObjectRef)
    (field : String) (v : Value) :
    Ends scope s s (EvalM.onWorldExcept (initializer.setField object field v)) (Back s) := by
  refine ⟨fun w => ?_, fun w => (Scope.Moves.setField h object field v).reaches⟩
  rw [perform_onWorldExcept]
  rcases hset : (initializer.setField object field v).run w with ⟨e | object', w'⟩
  · exact ⟨rfl, .inr ⟨typeName, initializer, object, field, v, w, h, hset⟩⟩
  · rfl

/-- A step that ends where it began does so whatever its outcome. -/
theorem Ends.stack_eq {act : EvalM σ α} (h : Ends scope s s act (Back s)) (w : World σ) :
    (act.perform scope ⟨s, w⟩).2.stack = s := by
  have hw := h.outcome w
  rcases hp : act.perform scope ⟨s, w⟩ with ⟨e | a, m'⟩
  · rw [hp] at hw
    exact hw.1
  · rw [hp] at hw
    exact hw

/-! ## Pushing and popping -/

/-- Room that is missing is no misuse. -/
theorem isMisuse_of_overflow? {v : Value} {e : CapacityError} (h : s.overflow? v = some e) :
    (EvalError.capacity e).isMisuse = false := by
  unfold Stack.overflow? at h
  split at h
  · cases h
    rfl
  · split at h
    · cases h
    · cases h
      rfl

/-- A value that is pushed is what is left, or there is no room and nothing changes. -/
theorem ends_pushValue (v : Value) : Ends scope s s (pushValue v) (Leaves s) := by
  constructor
  · intro w
    rw [perform_pushValue]
    cases h : s.overflow? v with
    | none => exact ⟨v, rfl, rfl, h⟩
    | some e => exact ⟨rfl, .inl (isMisuse_of_overflow? h)⟩
  · intro w
    rw [perform_pushValue]
    cases s.overflow? v with
    | none => exact .refl
    | some e => exact .refl

/-- Popping what was left gives a value of the kind that was told, and the stack from before. -/
theorem ends_popValue {info : ValueInfo} {s' : Stack} (h : Leaves s info s') :
    Ends scope s s' (popValue info) fun v s'' => s'' = s ∧ v.kind = info.kind := by
  rcases h with ⟨v, rfl, rfl, hroom⟩
  constructor
  · intro w
    rw [perform_popValue scope hroom]
    exact ⟨rfl, rfl⟩
  · intro w
    rw [perform_popValue scope hroom]
    exact .refl

/-- What was left can be dropped unread. -/
theorem ends_removeTop {info : ValueInfo} {s' : Stack} (h : Leaves s info s') :
    Ends scope s s' (removeTop info) (Back s) :=
  (ends_popValue h).bind fun _ _ hpop => .pure hpop.1

/-- A scalar of the kind that is on top can be popped as such. -/
theorem ends_popScalar {γ : Type} [Scalar γ] [Scalar.Lawful γ] (c : γ) {s' : Stack}
    (h : s' = { s with bytes := s.bytes ++ Scalar.encode c }) :
    Ends scope s s' (popScalar γ) (Back s) := by
  constructor
  · intro w
    rw [h, perform_popScalar]
    rfl
  · intro w
    rw [h, perform_popScalar]
    exact .refl

/-- The byte of a truth value can be read as one. -/
theorem ends_popScalar_of_kind_bool {info : ValueInfo} {s' : Stack} (h : Leaves s info s')
    (hbool : info.kind = .bool) : Ends scope s s' (popScalar Bool) (Back s) := by
  rcases h with ⟨v, rfl, rfl, -⟩
  cases v with
  | bool v => exact ends_popScalar v (by simp [Stack.holding, Value.bytes, Value.boxed])
  | _ => cases hbool

/-- A result that is popped at once leaves nothing behind. -/
theorem ends_popped {act : EvalM σ ValueInfo} (h : Ends scope s s act (Leaves s)) :
    Ends scope s s (popped act) (Back s) :=
  h.bind fun _ _ hleft => (ends_popValue hleft).mono fun _ _ hpop => hpop.1

/-- A value that does not fit is dropped before the error is raised. -/
theorem ends_removeTop_throw {info : ValueInfo} {s' : Stack} {e : EvalError}
    {post : α → Stack → Prop} (h : Leaves s info s') (he : e.isMisuse = false) :
    Ends scope s s' (do removeTop info; throw e) post :=
  (ends_removeTop h).andThen fun _ => .throw he

/-! ## Values of a wanted kind -/

/-- A result is popped as an integer, be it one or not; the other kinds below are alike. -/
theorem ends_popInt {info : ValueInfo} {s' : Stack} (h : Leaves s info s') :
    Ends scope s s' (popInt info) (Back s) := by
  have ⟨v, hinfo, hs', _⟩ := h
  subst hinfo hs'
  cases v with
  | int v => exact ends_popScalar v (by simp [Stack.holding, Value.bytes, Value.boxed])
  | _ => exact ends_removeTop_throw h rfl

theorem ends_popFloat {info : ValueInfo} {s' : Stack} (h : Leaves s info s') :
    Ends scope s s' (popFloat info) (Back s) := by
  have ⟨v, hinfo, hs', _⟩ := h
  subst hinfo hs'
  cases v with
  | float v => exact ends_popScalar v (by simp [Stack.holding, Value.bytes, Value.boxed])
  | int v =>
    have hpop : Ends scope s (s.holding (.int v)) (popScalar Int32) (Back s) :=
      ends_popScalar v (by simp [Stack.holding, Value.bytes, Value.boxed])
    exact hpop.andThen fun _ => .pure rfl
  | _ => exact ends_removeTop_throw h rfl

theorem ends_popBool {info : ValueInfo} {s' : Stack} (h : Leaves s info s') :
    Ends scope s s' (popBool info) (Back s) := by
  have ⟨v, hinfo, hs', _⟩ := h
  subst hinfo hs'
  cases v with
  | bool v => exact ends_popScalar v (by simp [Stack.holding, Value.bytes, Value.boxed])
  | _ => exact ends_removeTop_throw h rfl

theorem ends_popString {info : ValueInfo} {s' : Stack} (h : Leaves s info s') :
    Ends scope s s' (popString info) (Back s) := by
  refine (ends_popValue h).bind fun v s'' hpop => ?_
  rcases hpop with ⟨rfl, -⟩
  cases v with
  | str v => exact .pure rfl
  | _ => exact .throw rfl

theorem ends_popObject {info : ValueInfo} {s' : Stack} (h : Leaves s info s') :
    Ends scope s s' (popObject info) (Back s) := by
  refine (ends_popValue h).bind fun v s'' hpop => ?_
  rcases hpop with ⟨rfl, -⟩
  cases v with
  | object v => exact .pure rfl
  | _ => exact .throw rfl

theorem ends_popText {info : ValueInfo} {s' : Stack} (h : Leaves s info s') :
    Ends scope s s' (popText info) (Back s) := by
  refine (ends_popValue h).bind fun v s'' hpop => ?_
  rcases hpop with ⟨rfl, -⟩
  refine .objects (.onWorld fun w => ?_)
  cases v with
  | object o => exact (scope.objects.asked_text o w).reaches
  | _ => exact .refl

theorem ends_popElement (element : Kind) {info : ValueInfo} {s' : Stack} (h : Leaves s info s') :
    Ends scope s s' (popElement element info) (Back s) := by
  cases element with
  | int => exact (ends_popInt h).andThen fun _ => .pure rfl
  | float => exact (ends_popFloat h).andThen fun _ => .pure rfl
  | bool => exact (ends_popBool h).andThen fun _ => .pure rfl
  | string => exact (ends_popString h).andThen fun _ => .pure rfl
  | object | void => exact (ends_popValue h).mono fun _ _ hpop => hpop.1

/-! ## Operators, names and members -/

/-- The outcomes that operators have: a value that is neither `void` nor an object, or an error that
is not about the stack. -/
def IsComputed : Except EvalError Value → Prop
  | .ok v => v.isPlain = true
  | .error e => e.isCapacity = false

theorem IsComputed.isPlain {outcome : Except EvalError Value} {v : Value}
    (h : IsComputed outcome) (hvalue : outcome = .ok v) : v.isPlain = true := by
  rw [hvalue] at h
  exact h

/-- What an operator complains of is never the stack. -/
theorem IsComputed.isCapacity {outcome : Except EvalError Value} {e : EvalError}
    (h : IsComputed outcome) (herror : outcome = .error e) : e.isCapacity = false := by
  rw [herror] at h
  exact h

theorem isComputed_checkedInt (operation : String) (n : Int) :
    IsComputed (checkedInt operation n) := by
  unfold checkedInt
  split <;> rfl

theorem isComputed_intPow (a b : Int32) : IsComputed (intPow a b) := by
  dsimp only [intPow]
  split <;> rfl

theorem isComputed_evaluateUnary (op : Op) (v : Value) : IsComputed (evaluateUnary op v) := by
  unfold evaluateUnary
  split <;> first | exact isComputed_checkedInt _ _ | rfl

theorem isComputed_evaluateInts (op : Op) (a b : Int32) : IsComputed (evaluateInts op a b) := by
  unfold evaluateInts
  split <;> try split
  all_goals try split
  all_goals first
    | exact isComputed_checkedInt _ _
    | exact isComputed_intPow a b
    | rfl

theorem isComputed_evaluateFloats (op : Op) (a b : Binary32) :
    IsComputed (evaluateFloats op a b) := by
  unfold evaluateFloats
  split <;> rfl

theorem isComputed_evaluateBools (op : Op) (a b : Bool) : IsComputed (evaluateBools op a b) := by
  unfold evaluateBools
  split <;> rfl

theorem isComputed_evaluateStrings (op : Op) (a b : String) :
    IsComputed (evaluateStrings op a b) := by
  unfold evaluateStrings
  split <;> rfl

theorem isComputed_evaluateObjects (op : Op) (same : Bool) :
    IsComputed (evaluateObjects op same) := by
  unfold evaluateObjects
  split <;> rfl

/-- On operands of whatever kinds, an operator computes a plain value or complains. -/
theorem isComputed_evaluateKnown (objectText : String) (op : Op) (a b : Value) :
    IsComputed (evaluateKnown objectText op a b) := by
  unfold evaluateKnown
  split
  all_goals first
    | exact isComputed_evaluateInts op _ _
    | exact isComputed_evaluateFloats op _ _
    | exact isComputed_evaluateBools op _ _
    | exact isComputed_evaluateStrings op _ _
    | exact isComputed_evaluateObjects op _
    | rfl

theorem isComputed_evaluateBinary (host : Objects σ) (op : Op) (a b : Value) (w : World σ) :
    IsComputed ((evaluateBinary host op a b).run w).1 := by
  rw [run_evaluateBinary]
  exact isComputed_evaluateKnown _ op a b

/-- A binary operator works beside the stack. -/
theorem ends_evaluateBinary (op : Op) (a b : Value) :
    Ends scope s s (do onWorldExcept (evaluateBinary (← objects) op a b)) (Back s) := by
  refine .objects (.onWorldExcept (fun w => (asked_evaluateBinary _ op a b w).reaches) ?_)
  intro w e w' hrun
  exact (isComputed_evaluateBinary scope.objects op a b w).isCapacity (congrArg Prod.fst hrun)

/-- There is no element, or the host has been asked in vain. -/
theorem isCapacity_of_element {host : Objects σ} {o : ObjectRef} {index : Int32} {w w' : World σ}
    {e : EvalError} (h : (host.element o index).run w = (.error e, w')) : e.isCapacity = false := by
  rw [Objects.run_element] at h
  split at h
  · split at h
    · cases h
    · cases h
      rfl
  · cases h

theorem ends_listElement (owner : ObjectRef) (index : Int32) :
    Ends scope s s (listElement owner index) (Leaves s) := by
  refine .objects (Ends.andThen (.onWorldExcept ?_ ?_) ends_pushValue)
  · exact fun w => (scope.objects.asked_element owner index w).reaches
  · exact fun _ _ _ => isCapacity_of_element

theorem ends_selectors :
    Ends scope s s selectors fun list s' => list = scope.selectors.map (·.2) ∧ s' = s :=
  Ends.read.bind fun _ _ h => .pure ⟨by rw [h.1], h.2⟩

/-- What is asked of the selectors is asked of those in scope, in their order. -/
theorem perform_onSelectors (f : List (Selector σ) → StateM (World σ) α) (m : Machine σ) :
    (do onWorld (f (← selectors)) : EvalM σ α).perform scope m
      = (.ok ((f (scope.selectors.map (·.2))).run m.world).1,
        { m with world := ((f (scope.selectors.map (·.2))).run m.world).2 }) :=
  rfl

theorem ends_selectName (name : String) : Ends scope s s (selectName name) (Leaves s) := by
  refine ends_selectors.bind fun list s' hs => ?_
  rcases hs with ⟨rfl, rfl⟩
  refine (Ends.onWorld (reaches_selectFirst none name fun _ h => h)).andThen fun found => ?_
  cases found with
  | none => exact .throw rfl
  | some v => exact ends_pushValue v

/-- Each way to find a member pushes one value or fails. -/
theorem ends_selectMember (owner : ObjectRef) (name : String) :
    Ends scope s s (selectMember owner name) (Leaves s) := by
  unfold selectMember
  split
  · refine .objects (Ends.andThen (.onWorld fun w => ?_) fun _ => ends_pushValue _)
    exact (scope.objects.asked_count owner w).reaches
  · split
    · refine .objects (Ends.andThen (.onWorld fun w => ?_) fun found => ?_)
      · exact (Scope.Moves.selectMember owner name).reaches
      · cases found with
        | none => exact .throw rfl
        | some v => exact ends_pushValue v
    · refine ends_selectors.bind fun list s' hs => ?_
      rcases hs with ⟨rfl, rfl⟩
      refine (Ends.onWorld (reaches_selectFirst _ name fun _ h => h)).andThen fun found => ?_
      split
      · split
        · exact ends_listElement owner _
        · exact ends_pushValue _
      · exact ends_pushValue _
      · exact .throw rfl

theorem ends_memberOf (owner : ObjectRef) (member : Node) :
    Ends scope s s (memberOf owner member) (Leaves s) := by
  unfold memberOf
  split
  · exact ends_selectMember owner _
  · exact ends_listElement owner _
  · exact .throw rfl

theorem ends_memberOwner (v : Value) : Ends scope s s (memberOwner v) (Back s) := by
  unfold memberOwner
  split
  · exact .pure rfl
  · exact .throw rfl
  · exact .throw rfl

/-- An assignment that is accepted leaves the value that was assigned. -/
theorem ends_assignValue (owner? : Option ObjectRef) (name : String) (v : Value) :
    Ends scope s s (assignValue owner? name v) (Leaves s) := by
  have hviaSelectors : Ends scope s s
      (do onWorld (Selector.assignFirst owner? name v (← selectors))) (Back s) := by
    refine ends_selectors.bind fun list s' hs => ?_
    rcases hs with ⟨rfl, rfl⟩
    exact Ends.onWorld (reaches_assignFirst owner? name v fun _ h => h)
  -- Whoever has been asked, what comes then is the same.
  have hlast : ∀ accepted : Bool, Ends scope s s
      (if accepted then pushValue v else throw (.unassignableIdentifier name)) (Leaves s) := by
    intro accepted
    cases accepted with
    | true => exact ends_pushValue v
    | false => exact .throw rfl
  unfold assignValue
  cases owner? with
  | none => exact hviaSelectors.andThen hlast
  | some owner =>
    simp only
    split
    · refine .objects (Ends.andThen (.onWorld fun w => ?_) hlast)
      exact (Scope.Moves.assignMember owner name v).reaches
    · exact hviaSelectors.andThen hlast

/-- A new list takes a number for itself from the world and is pushed. -/
theorem ends_pushList (element : Kind) (items : List Value) :
    Ends scope s s (pushList element items) (Leaves s) :=
  (Ends.onWorld fun _ => Scope.Moves.fresh.reaches).andThen fun _ => ends_pushValue _

end EvalM

/-! ## Expressions -/

open EvalM

variable {σ : Type} {scope : Scope σ} {s : Stack}

/-- An expression ends with its value on top, or fails with the stack as it was. -/
theorem ends_eval (n : Node) : ∀ s, Ends scope s s (eval n) (Leaves s) := by
  -- Fields and items are popped one by one, so they end where they began.
  induction n using Node.inductionOn
    (motive_2 := fun fields => ∀ initializer object,
      (∃ typeName, scope.initializers.find? typeName = some initializer) →
        ∀ s, Ends scope s s (evalFields initializer object fields) (Back s))
    (motive_3 := fun items => ∀ element s, Ends scope s s (evalItems element items) (Back s))
  with
  | literal n v hv =>
    intro s
    rw [eval_of_literal? hv]
    exact ends_pushValue v
  | ident name =>
    intro s
    rw [eval]
    exact ends_selectName name
  | list element items hitems =>
    intro s
    rw [eval]
    exact (hitems element s).andThen fun _ => ends_pushList element _
  | construct typeName fields hfields =>
    intro s
    rw [eval]
    by_cases hname : typeName = ""
    · simp only [hname, if_true]
      exact .throw rfl
    · simp only [hname, if_false]
      refine Ends.read.bind fun scope' s' hs => ?_
      rcases hs with ⟨rfl, rfl⟩
      -- The initializer is one of this scope, so that what it answers to a field is a `FieldFault`.
      cases hfind : scope'.initializers.find? typeName with
      | none => exact .throw rfl
      | some initializer =>
        refine (Ends.onWorld fun w => (Scope.Moves.create hfind).reaches).andThen fun object => ?_
        exact (hfields initializer object ⟨typeName, hfind⟩ s').andThen fun _ => ends_pushValue _
  | wrongArity op operands harity =>
    intro s
    rw [eval_apply_of_length_ne harity]
    exact .throw rfl
  | ternary condition yes no hcondition hyes hno =>
    intro s
    rw [eval_ternary]
    -- The condition is popped, right kind or not, before anything else is pushed.
    refine (hcondition s).bind fun info s' hleft => ?_
    split
    · next hbool =>
      refine (ends_popScalar_of_kind_bool hleft hbool).andThen fun b => ?_
      cases b with
      | true => exact hyes s
      | false => exact hno s
    · exact ends_removeTop_throw hleft rfl
  | member owner member howner =>
    intro s
    rw [eval_member]
    exact (ends_popped (howner s)).andThen fun v =>
      (ends_memberOwner v).andThen fun owner => ends_memberOf owner member
  | assignIdent name right hright =>
    intro s
    rw [eval_assign_ident]
    exact (ends_popped (hright s)).andThen fun v => ends_assignValue none name v
  | assignMember owner name right howner hright =>
    intro s
    rw [eval_assign_member]
    exact (ends_popped (howner s)).andThen fun v =>
      (ends_memberOwner v).andThen fun owner =>
        (ends_popped (hright s)).andThen fun v => ends_assignValue (some owner) name v
  | assignOther target right htarget =>
    -- An assignment to what is no target fails before its right side is evaluated.
    intro s
    rw [eval_assign_of_not_isTarget htarget]
    exact .throw rfl
  | unary op operand hunary hoperand =>
    intro s
    rw [eval_unary hunary]
    exact (ends_popped (hoperand s)).andThen fun v =>
      (Ends.ofOutcome fun _ => (isComputed_evaluateUnary op v).isCapacity).andThen fun _ =>
        ends_pushValue _
  | binary op left right hbinary hmember hassign hleft hright =>
    intro s
    rw [eval_binary hbinary hmember hassign]
    refine (ends_popped (hleft s)).andThen fun a => ?_
    split
    · exact ends_pushValue _
    · exact (ends_popped (hright s)).andThen fun b =>
        (ends_evaluateBinary op a b).andThen fun _ => ends_pushValue _
  | noField initializer object _ s =>
    rw [evalFields]
    exact .pure rfl
  | field name right fields hright hfields initializer object hfind s =>
    rcases hfind with ⟨typeName, hfind⟩
    rw [evalFields]
    refine (ends_popped (hright s)).andThen fun v => ?_
    refine (Ends.setField hfind object name v).andThen fun object' => ?_
    exact hfields initializer object' ⟨typeName, hfind⟩ s
  | otherField n fields hfield initializer object _ s =>
    rw [evalFields_of_not_isField hfield]
    exact .throw rfl
  | noItem element s =>
    rw [evalItems]
    exact .pure rfl
  | item n items hn hitems element s =>
    rw [evalItems]
    refine (hn s).bind fun info s' hleft => ?_
    exact (ends_popElement element hleft).andThen fun v =>
      (hitems element s).andThen fun vs => .pure rfl

/-- Each element is popped before the next one is begun. -/
theorem ends_evalItems (element : Kind) (ns : List Node) :
    Ends scope s s (evalItems element ns) (Back s) := by
  induction ns with
  | nil =>
    rw [evalItems]
    exact .pure rfl
  | cons n ns ih =>
    rw [evalItems]
    refine (ends_eval n s).bind fun info s' hleft => ?_
    exact (ends_popElement element hleft).andThen fun v => ih.andThen fun vs => .pure rfl

/-- Each field is popped before the initializer gets it. -/
theorem ends_evalFields {initializer : Initializer σ}
    (hfind : ∃ typeName, scope.initializers.find? typeName = some initializer) (ns : List Node) :
    ∀ object, Ends scope s s (evalFields initializer object ns) (Back s) := by
  induction ns with
  | nil =>
    intro object
    rw [evalFields]
    exact .pure rfl
  | cons n ns ih =>
    intro object
    by_cases hfield : n.isField = true
    · rcases Node.isField_iff.mp hfield with ⟨name, right, rfl⟩
      rcases hfind with ⟨typeName, hfind'⟩
      rw [evalFields]
      exact (ends_popped (ends_eval right s)).andThen fun v =>
        (Ends.setField hfind' object name v).andThen fun object' => ih object'
    · rw [evalFields_of_not_isField (by simpa using hfield)]
      exact .throw rfl

/-- The last call that evaluating the expression makes is one to set a field, and `e` is what the
initializer of the type answers. -/
def Node.RefusesField (n : Node) (scope : Scope σ) (m : Machine σ) (e : EvalError) : Prop :=
  ∃ typeName initializer object field v before,
    scope.initializers.find? typeName = some initializer ∧
    (initializer.setField object field v).run before
      = (.error e, ((eval n).perform scope m).2.world) ∧
    (n.hostCalls scope m).getLast? = some (.setField typeName object field v (some e))

/-- The recorded scope has written down what an initializer has just answered to a field. -/
theorem setField_of_fieldFault {e : EvalError} {w : World (σ × List HostCall)}
    (h : FieldFault scope.recorded e w) :
    ∃ typeName initializer object field v before,
      scope.initializers.find? typeName = some initializer ∧
      (initializer.setField object field v).run before = (.error e, w.unrecorded) ∧
      w.state.2.getLast? = some (.setField typeName object field v (some e)) := by
  rcases h with ⟨typeName, recorded, object, field, v, before, hrecorded, hanswer⟩
  rw [find?_recorded] at hrecorded
  rcases Option.map_eq_some_iff.mp hrecorded with ⟨initializer, hfind, rfl⟩
  have hrun := initializer.run_setField_recorded typeName object field v before
  rw [hanswer] at hrun
  rcases hset : (initializer.setField object field v).run before.unrecorded with ⟨e' | made, w'⟩
  · rw [hset] at hrun
    cases hrun
    exact ⟨typeName, initializer, object, field, v, before.unrecorded, hfind, hset,
      List.getLast?_concat⟩
  · rw [hset] at hrun
    cases hrun

/-- An error with the calls written down is the error without. -/
theorem exists_recorded_error {m m' : Machine σ} {n : Node} {e : EvalError}
    (h : (eval n).perform scope m = (.error e, m')) :
    ∃ m'', (eval n).perform scope.recorded m.recorded = (.error e, m'') ∧ m''.unrecorded = m' := by
  have hrecords : Records scope (eval n) (eval n) := records_eval n
  have hperform := hrecords.perform_eq m.recorded
  have hunrecorded : m.recorded.unrecorded = m := rfl
  rw [hunrecorded, h] at hperform
  rcases hp : (eval n).perform scope.recorded m.recorded with ⟨e' | info, m''⟩
  · rw [hp] at hperform
    cases hperform
    exact ⟨m'', rfl, rfl⟩
  · rw [hp] at hperform
    cases hperform

/-- What an initializer has answered to a field is the last that is written down. -/
theorem refusesField_of_fieldFault {m : Machine σ} {m' : Machine (σ × List HostCall)} {n : Node}
    {e : EvalError} (h : (eval n).perform scope.recorded m.recorded = (.error e, m'))
    (hfault : FieldFault scope.recorded e m'.world) : n.RefusesField scope m e := by
  have hrecords : Records scope (eval n) (eval n) := records_eval n
  have hperform := hrecords.perform_eq m.recorded
  rcases setField_of_fieldFault hfault with
    ⟨typeName, initializer, object, field, v, before, hfind, hanswer, hlast⟩
  refine ⟨typeName, initializer, object, field, v, before, hfind, ?_, ?_⟩
  · have hunrecorded : m.recorded.unrecorded = m := rfl
    rw [hunrecorded, h] at hperform
    rw [hperform]
    exact hanswer
  · rw [Node.hostCalls, h]
    exact hlast

/-- Whatever error is raised, it is no misuse of the stack, or an initializer has answered it. -/
theorem isMisuse_or_refusesField {m m' : Machine σ} {n : Node} {e : EvalError}
    (h : (eval n).perform scope m = (.error e, m')) :
    e.isMisuse = false ∨ n.RefusesField scope m e := by
  rcases exists_recorded_error h with ⟨m'', hrecorded, -⟩
  have hends : Ends scope.recorded m.stack m.stack (eval n) (Leaves m.stack) := ends_eval n m.stack
  have houtcome := hends.outcome m.recorded.world
  have hstart : (⟨m.stack, m.recorded.world⟩ : Machine _) = m.recorded := rfl
  rw [hstart, hrecorded] at houtcome
  exact houtcome.2.imp id (refusesField_of_fieldFault hrecorded)

/-- Evaluation leaves one value on the stack or nothing, whatever the stack held before and whatever
the host does.

A result tells the kind of the value and the offset that is the length of the stack before (`-1` for
`void`, which takes no room); the bytes and objects before are still there below it, and popping it
gives them back.  After an error they are all there is.  An evaluation to a wanted kind leaves the
stack as it was in either case.  A misuse of the stack is reported only if an initializer reports it
on its own, in the last call to the host that was made. -/
theorem eval_stack_discipline (scope : Scope σ) (m : Machine σ) (n : Node) :
    (match (eval n).perform scope m with
      | (.ok info, m') => ∃ v,
        info = m.stack.place v ∧
        m'.stack = m.stack.holding v ∧
        m'.stack.length = m.stack.length + info.kind.width ∧
        m'.stack.objectCount = m.stack.objectCount + info.kind.slots ∧
        (popValue info).perform scope m' = (.ok v, { m' with stack := m.stack })
      | (.error e, m') =>
        m'.stack = m.stack ∧ (e.isMisuse = false ∨ n.RefusesField scope m e)) ∧
    ((evalValue n).perform scope m).2.stack = m.stack ∧
    ((evalInt n).perform scope m).2.stack = m.stack ∧
    ((evalFloat n).perform scope m).2.stack = m.stack ∧
    ((evalBool n).perform scope m).2.stack = m.stack ∧
    ((evalString n).perform scope m).2.stack = m.stack ∧
    ((evalText n).perform scope m).2.stack = m.stack ∧
    ((evalObject n).perform scope m).2.stack = m.stack := by
  rcases m with ⟨s, w⟩
  have heval : Ends scope s s (eval n) (Leaves s) := ends_eval n s
  -- What `eval` leaves is popped as any kind that may be wanted.
  refine ⟨?_, (ends_popped heval).stack_eq w,
    (heval.bind fun _ _ => ends_popInt).stack_eq w,
    (heval.bind fun _ _ => ends_popFloat).stack_eq w,
    (heval.bind fun _ _ => ends_popBool).stack_eq w,
    (heval.bind fun _ _ => ends_popString).stack_eq w,
    (heval.bind fun _ _ => ends_popText).stack_eq w,
    (heval.bind fun _ _ => ends_popObject).stack_eq w⟩
  have houtcome := heval.outcome w
  rcases hp : (eval n).perform scope ⟨s, w⟩ with ⟨e | info, s', w'⟩
  · rw [hp] at houtcome
    exact ⟨houtcome.1, isMisuse_or_refusesField hp⟩
  · rw [hp] at houtcome
    rcases houtcome with ⟨v, rfl, hs', hroom⟩
    obtain rfl : s' = s.holding v := hs'
    exact ⟨v, rfl, rfl, by simp, by simp, perform_popValue scope hroom w'⟩

end Edict
