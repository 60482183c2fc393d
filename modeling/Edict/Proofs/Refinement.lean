import Edict.Proofs.Discipline
import Edict.Proofs.Meaning

namespace Edict

/-! # Evaluation on the stack finds the meaning

Evaluation on the stack follows the meaning of an expression step by step: wherever a value can be
pushed at all, an expression ends with the value of its meaning on top, or with the error of its
meaning and the stack as it was.  At most one value is alive above the height that evaluation
started at, which is why room for one is room enough for any expression.

Main statements:

* `follows_eval`: evaluation follows the meaning, construct by construct;
* `evalValue_refines_meaning`: the value, the error and the calls to the host are those of the
  meaning, and no error tells of a stack that is too small.
-/

/-! ## Evaluation follows the meaning -/

namespace EvalM

variable {σ α β γ δ : Type} {scope : Scope σ} {s start : Stack}

/-- Begun on the stack `start`, the action does what the action of the host does: where that has a
result, `view` tells the result here and the stack; where that fails, this fails alike and leaves
the stack `s`.  The error is never one of the stack, unless an initializer reports it. -/
structure Follows (scope : Scope σ) (s start : Stack) (act : EvalM σ α) (ref : HostM σ β)
    (view : β → α × Stack) : Prop where
  perform_eq : ∀ w, act.perform scope ⟨start, w⟩ = match ref.perform scope w with
    | (.ok b, w') => (.ok (view b).1, ⟨(view b).2, w'⟩)
    | (.error e, w') => (.error e, ⟨s, w'⟩)
  fault : ∀ w e w', ref.perform scope w = (.error e, w') →
    e.isCapacity = false ∨ FieldFault scope e w'

/-- The value is on top of `s`. -/
def onTop (s : Stack) (v : Value) : ValueInfo × Stack := (s.place v, s.holding v)

/-- The result is the same, and the stack is `s` again. -/
def back (s : Stack) (a : α) : α × Stack := (a, s)

/-! ### Building blocks -/

/-- Two steps that each follow their meaning follow it together. -/
theorem Follows.bind {act : EvalM σ α} {ref : HostM σ β} {view : β → α × Stack}
    {next : α → EvalM σ γ} {refNext : β → HostM σ δ} {viewNext : δ → γ × Stack}
    (hact : Follows scope s start act ref view)
    (hnext : ∀ b, Follows scope s (view b).2 (next (view b).1) (refNext b) viewNext) :
    Follows scope s start (act >>= next) (ref >>= refNext) viewNext := by
  constructor
  · intro w
    rw [perform_bind, HostM.perform_bind, hact.perform_eq]
    rcases ref.perform scope w with ⟨e | b, w'⟩
    · rfl
    · exact (hnext b).perform_eq w'
  · intro w e w' herror
    rw [HostM.perform_bind] at herror
    rcases href : ref.perform scope w with ⟨e' | b, w''⟩
    · rw [href] at herror
      cases herror
      exact hact.fault w e w' href
    · rw [href] at herror
      exact (hnext b).fault w'' e w' herror

/-- What follows an action that ends on `s` again begins there. -/
theorem Follows.andThen {act : EvalM σ α} {ref : HostM σ α} {next : α → EvalM σ γ}
    {refNext : α → HostM σ δ} {viewNext : δ → γ × Stack}
    (hact : Follows scope s start act ref (back s))
    (hnext : ∀ a, Follows scope s s (next a) (refNext a) viewNext) :
    Follows scope s start (act >>= next) (ref >>= refNext) viewNext :=
  hact.bind hnext

/-- An action behind, which asks nothing of the host and cannot fail, only changes what the result
looks like. -/
theorem Follows.finish {act : EvalM σ α} {ref : HostM σ β} {view : β → α × Stack}
    {next : α → EvalM σ γ} {viewNext : β → γ × Stack} (hact : Follows scope s start act ref view)
    (hnext : ∀ b w, (next (view b).1).perform scope ⟨(view b).2, w⟩
      = (.ok (viewNext b).1, ⟨(viewNext b).2, w⟩)) :
    Follows scope s start (act >>= next) ref viewNext := by
  refine ⟨fun w => ?_, hact.fault⟩
  rw [perform_bind, hact.perform_eq]
  rcases ref.perform scope w with ⟨e | b, w'⟩
  · rfl
  · exact hnext b w'

/-- An action in front, which asks nothing of the host and cannot fail, only changes the stack. -/
theorem Follows.after {act : EvalM σ α} {a : α} {s' : Stack} {next : α → EvalM σ γ}
    {ref : HostM σ β} {view : β → γ × Stack}
    (hact : ∀ w, act.perform scope ⟨start, w⟩ = (.ok a, ⟨s', w⟩))
    (hnext : Follows scope s s' (next a) ref view) :
    Follows scope s start (act >>= next) ref view := by
  refine ⟨fun w => ?_, hnext.fault⟩
  rw [perform_bind, hact]
  exact hnext.perform_eq w

theorem Follows.pure {a : α} {b : β} {view : β → α × Stack} (h : view b = (a, start)) :
    Follows scope s start (pure a) (pure b) view := by
  constructor
  · intro w
    show (Except.ok a, (⟨start, w⟩ : Machine σ)) = (.ok (view b).1, ⟨(view b).2, w⟩)
    rw [h]
  · intro w e w' herror
    cases herror

/-- Errors that are none of the stack have the same meaning without one. -/
theorem Follows.throw {e : EvalError} {view : β → α × Stack} (h : e.isCapacity = false) :
    Follows scope s s (throw e : EvalM σ α) (throw e : HostM σ β) view := by
  constructor
  · intro w
    rfl
  · intro w e' w' herror
    cases herror
    exact .inl h

/-- An answer of the host is the same with a stack and without. -/
theorem Follows.ask (f : StateM (World σ) α) :
    Follows scope s s (onWorld f) (HostM.ask f) (back s) := by
  constructor
  · intro w
    rfl
  · intro w e w' herror
    cases herror

/-- An action whose outcome the host has no part in and that is back at `s` in either case. -/
theorem Follows.ofOutcome {act : EvalM σ α} {outcome : Except EvalError α}
    (hact : ∀ w, act.perform scope ⟨start, w⟩ = (outcome, ⟨s, w⟩))
    (hoverflow : ∀ e, outcome = .error e → e.isCapacity = false) :
    Follows scope s start act (HostM.ofOutcome outcome) (back s) := by
  constructor
  · intro w
    rw [hact]
    cases outcome with
    | ok a => rfl
    | error e => rfl
  · intro w e w' herror
    cases outcome with
    | ok a => cases herror
    | error e' =>
      cases herror
      exact .inl (hoverflow e rfl)

/-- So is a refusal of the host, unless it is the report of an initializer that the stack has
overflowed. -/
theorem Follows.askExcept {f : ExceptT EvalError (StateM (World σ)) α}
    (h : ∀ w e w', f.run w = (.error e, w') → e.isCapacity = false ∨ FieldFault scope e w') :
    Follows scope s s (onWorldExcept f) (HostM.askExcept f) (back s) := by
  refine ⟨fun w => ?_, h⟩
  have hrun : (HostM.askExcept f).perform scope w = f.run w := rfl
  rw [perform_onWorldExcept, hrun]
  rcases f.run w with ⟨e | a, w'⟩
  · rfl
  · rfl

/-- Setting a field is the one step that may bring in an error of any kind. -/
theorem Follows.setField {typeName : String} {initializer : Initializer σ}
    (h : scope.initializers.find? typeName = some initializer) (object : ObjectRef)
    (field : String) (v : Value) :
    Follows scope s s (onWorldExcept (initializer.setField object field v))
      (HostM.askExcept (initializer.setField object field v)) (back s) :=
  .askExcept fun w _ _ herror => .inr ⟨typeName, initializer, object, field, v, w, h, herror⟩

theorem Follows.read {next : Scope σ → EvalM σ α} {refNext : Scope σ → HostM σ β}
    {view : β → α × Stack} (h : Follows scope s s (next scope) (refNext scope) view) :
    Follows scope s s (read >>= next) (read >>= refNext) view :=
  ⟨fun w => h.perform_eq w, fun w => h.fault w⟩

/-- The same objects are asked. -/
theorem Follows.objects {next : Objects σ → EvalM σ α} {refNext : Objects σ → HostM σ β}
    {view : β → α × Stack} (h : Follows scope s s (next scope.objects) (refNext scope.objects) view) :
    Follows scope s s (objects >>= next) (HostM.objects >>= refNext) view :=
  ⟨fun w => h.perform_eq w, fun w => h.fault w⟩

/-- The same selectors are asked in the same order. -/
theorem Follows.selectors {next : List (Selector σ) → EvalM σ α}
    {refNext : List (Selector σ) → HostM σ β} {view : β → α × Stack}
    (h : Follows scope s s (next (scope.selectors.map (·.2)))
      (refNext (scope.selectors.map (·.2))) view) :
    Follows scope s s (selectors >>= next) (HostM.selectors >>= refNext) view :=
  ⟨fun w => h.perform_eq w, fun w => h.fault w⟩

/-! ### Values on the stack -/

/-- With room for one value, pushing succeeds. -/
theorem perform_pushValue_of_hasRoom (hroom : s.HasRoom) (v : Value) (w : World σ) :
    (pushValue v).perform scope ⟨s, w⟩ = (.ok (s.place v), ⟨s.holding v, w⟩) := by
  rw [perform_pushValue, hroom.overflow?_eq_none]

/-- A value that is pushed means itself. -/
theorem follows_pushValue (hroom : s.HasRoom) (v : Value) :
    Follows scope s s (pushValue v) (pure v) (onTop s) := by
  constructor
  · intro w
    exact perform_pushValue_of_hasRoom hroom v w
  · intro w e w' herror
    cases herror

/-- What has been found without the stack can be pushed. -/
theorem Follows.pushed {act : EvalM σ Value} {ref : HostM σ Value} (hroom : s.HasRoom)
    (h : Follows scope s start act ref (back s)) :
    Follows scope s start (act >>= pushValue) ref (onTop s) :=
  h.finish (perform_pushValue_of_hasRoom hroom)

/-- What stands on top can be popped. -/
theorem Follows.popped {act : EvalM σ ValueInfo} {ref : HostM σ Value} (hroom : s.HasRoom)
    (h : Follows scope s start act ref (onTop s)) :
    Follows scope s start (popped act) ref (back s) :=
  h.finish fun v w => perform_popValue scope (hroom.overflow?_eq_none v) w

/-- A value that was pushed can be dropped. -/
theorem perform_removeTop (hroom : s.HasRoom) (v : Value) (w : World σ) :
    (removeTop (s.place v)).perform scope ⟨s.holding v, w⟩ = (.ok (), ⟨s, w⟩) := by
  rw [removeTop, perform_bind, perform_popValue scope (hroom.overflow?_eq_none v)]
  rfl

/-- A value that does not fit is dropped before the error is raised. -/
theorem follows_removeTop_throw (hroom : s.HasRoom) (v : Value) {e : EvalError}
    {view : β → α × Stack} (he : e.isCapacity = false) :
    Follows scope s (s.holding v) (do removeTop (s.place v); throw e) (throw e : HostM σ β)
      view := by
  constructor
  · intro w
    rw [perform_bind, perform_removeTop hroom]
    rfl
  · intro w e' w' herror
    cases herror
    exact .inl he

/-- The value of a kind that a scalar has is popped as that scalar. -/
theorem perform_popScalar_holding {ρ : Type} [Scalar ρ] [Scalar.Lawful ρ] {v : Value} (a : ρ)
    (h : v.bytes s.objectCount = Scalar.encode a ∧ v.boxed = []) (w : World σ) :
    (popScalar ρ : EvalM σ ρ).perform scope ⟨s.holding v, w⟩ = (.ok a, ⟨s, w⟩) := by
  have hholding : s.holding v = { s with bytes := s.bytes ++ Scalar.encode a } := by
    rw [Stack.holding, h.1, h.2, List.append_nil]
  rw [hholding, perform_popScalar]

/-- An error behind a dropped value leaves the stack as it was. -/
theorem perform_removeTop_throw (hroom : s.HasRoom) (v : Value) (e : EvalError) (w : World σ) :
    (do removeTop (s.place v); throw e : EvalM σ α).perform scope ⟨s.holding v, w⟩
      = (.error e, ⟨s, w⟩) := by
  rw [perform_bind, perform_removeTop hroom]
  rfl

/-! ### Values of a wanted kind -/

/-- A value that is popped as an integer is the integer that it is, or none; the other kinds are
alike. -/
theorem perform_popInt (hroom : s.HasRoom) (v : Value) (w : World σ) :
    (popInt (s.place v)).perform scope ⟨s.holding v, w⟩ = (v.asInt, ⟨s, w⟩) := by
  cases v with
  | int v => exact perform_popScalar_holding v ⟨rfl, rfl⟩ w
  | _ => exact perform_removeTop_throw hroom _ _ w

theorem perform_popFloat (hroom : s.HasRoom) (v : Value) (w : World σ) :
    (popFloat (s.place v)).perform scope ⟨s.holding v, w⟩ = (v.asFloat, ⟨s, w⟩) := by
  cases v with
  | float v => exact perform_popScalar_holding v ⟨rfl, rfl⟩ w
  | int v =>
    show (popScalar Int32 >>= fun v => pure (promote v)).perform scope _ = _
    rw [perform_bind, perform_popScalar_holding v ⟨rfl, rfl⟩]
    rfl
  | _ => exact perform_removeTop_throw hroom _ _ w

theorem perform_popBool (hroom : s.HasRoom) (v : Value) (w : World σ) :
    (popBool (s.place v)).perform scope ⟨s.holding v, w⟩ = (v.asBool, ⟨s, w⟩) := by
  cases v with
  | bool v => exact perform_popScalar_holding v ⟨rfl, rfl⟩ w
  | _ => exact perform_removeTop_throw hroom _ _ w

theorem perform_popString (hroom : s.HasRoom) (v : Value) (w : World σ) :
    (popString (s.place v)).perform scope ⟨s.holding v, w⟩ = (v.asString, ⟨s, w⟩) := by
  rw [popString, perform_bind, perform_popValue scope (hroom.overflow?_eq_none v)]
  cases v <;> rfl

/-- What is computed of a result touches neither the stack nor the world. -/
theorem perform_bind_pure {act : EvalM σ α} {outcome : Except EvalError α} {m m' : Machine σ}
    (f : α → β) (h : act.perform scope m = (outcome, m')) :
    (act >>= fun a => pure (f a)).perform scope m = (outcome.map f, m') := by
  rw [perform_bind, h]
  cases outcome <;> rfl

/-- What stands on top is popped as an element of a list, or dropped if it cannot be one. -/
theorem perform_popElement (hroom : s.HasRoom) (element : Kind) (v : Value) (w : World σ) :
    (popElement element (s.place v)).perform scope ⟨s.holding v, w⟩
      = (v.asElement element, ⟨s, w⟩) := by
  cases element with
  | int => exact perform_bind_pure Value.int (perform_popInt hroom v w)
  | float => exact perform_bind_pure Value.float (perform_popFloat hroom v w)
  | bool => exact perform_bind_pure Value.bool (perform_popBool hroom v w)
  | string => exact perform_bind_pure Value.str (perform_popString hroom v w)
  | object | void => exact perform_popValue scope (hroom.overflow?_eq_none v) w

/-- That a value is no element of a list is no complaint of the stack. -/
theorem isCapacity_of_asElement {element : Kind} {v : Value} {e : EvalError}
    (h : v.asElement element = .error e) : e.isCapacity = false := by
  cases element <;> cases v <;> cases h <;> rfl

/-- An element is accepted or refused by its kind. -/
theorem follows_popElement (hroom : s.HasRoom) (element : Kind) (v : Value) :
    Follows scope s (s.holding v) (popElement element (s.place v))
      (HostM.ofOutcome (v.asElement element)) (back s) :=
  .ofOutcome (perform_popElement hroom element v) fun _ => isCapacity_of_asElement

/-! ### Names and members -/

theorem isCapacity_of_asOwner {v : Value} {e : EvalError} (h : v.asOwner = .error e) :
    e.isCapacity = false := by
  cases v <;> cases h <;> rfl

/-- The owner of a member is an object. -/
theorem follows_memberOwner (v : Value) :
    Follows scope s s (memberOwner v) (HostM.ofOutcome v.asOwner) (back s) := by
  refine .ofOutcome (fun w => ?_) fun _ => isCapacity_of_asOwner
  cases v <;> rfl

/-- Elements, names, members and assignments mean what the host answers. -/
theorem follows_listElement (hroom : s.HasRoom) (owner : ObjectRef) (index : Int32) :
    Follows scope s s (listElement owner index) (HostM.element owner index) (onTop s) :=
  .objects (.pushed hroom (.askExcept fun _ _ _ herror => .inl (isCapacity_of_element herror)))

/-- What has been found in the host is pushed, and what has not is an error. -/
theorem follows_found (hroom : s.HasRoom) (found : Option Value) {e : EvalError}
    (he : e.isCapacity = false) :
    Follows scope s s (match found with
        | some v => pushValue v
        | none => throw e)
      (match found with
        | some v => pure v
        | none => throw e) (onTop s) := by
  cases found with
  | none => exact .throw he
  | some v => exact follows_pushValue hroom v

theorem follows_selectName (hroom : s.HasRoom) (name : String) :
    Follows scope s s (selectName name) (HostM.name name) (onTop s) :=
  .selectors <| (Follows.ask _).andThen fun found => follows_found hroom found rfl

theorem follows_selectMember (hroom : s.HasRoom) (owner : ObjectRef) (name : String) :
    Follows scope s s (selectMember owner name) (HostM.member owner name) (onTop s) := by
  unfold selectMember HostM.member
  split
  · exact .objects <| (Follows.ask _).andThen fun _ => follows_pushValue hroom _
  · split
    · exact .objects <| (Follows.ask _).andThen fun found => follows_found hroom found rfl
    · refine .selectors <| (Follows.ask _).andThen fun found => ?_
      rcases found with - | v
      · exact .throw rfl
      · cases v with
        | int index =>
          simp only
          split
          · exact follows_listElement hroom owner index
          · exact follows_pushValue hroom (.int index)
        | void | float _ | bool _ | str _ | object _ | null => exact follows_pushValue hroom _

theorem follows_memberOf (hroom : s.HasRoom) (owner : ObjectRef) (member : Node) :
    Follows scope s s (memberOf owner member) (HostM.memberOf owner member) (onTop s) := by
  cases member with
  | ident name => exact follows_selectMember hroom owner name
  | int index => exact follows_listElement hroom owner index
  | _ => exact .throw rfl

theorem follows_assignValue (hroom : s.HasRoom) (owner? : Option ObjectRef) (name : String)
    (v : Value) :
    Follows scope s s (assignValue owner? name v) (HostM.assign owner? name v) (onTop s) := by
  -- Whoever is asked, what comes then is the same.
  have hlast : ∀ accepted : Bool, Follows scope s s
      (if accepted then pushValue v else throw (.unassignableIdentifier name))
      (if accepted then pure v else throw (.unassignableIdentifier name)) (onTop s) := by
    intro accepted
    cases accepted with
    | true => exact follows_pushValue hroom v
    | false => exact .throw rfl
  unfold assignValue HostM.assign HostM.offer
  cases owner? with
  | none => exact Follows.andThen (.selectors (.ask _)) hlast
  | some owner =>
    simp only [Option.filter]
    split
    · have hasked : Follows scope s s (do onWorld ((← objects).assign owner name v))
          (do HostM.ask ((← HostM.objects).assign owner name v)) (back s) := .objects (.ask _)
      exact hasked.andThen hlast
    · exact Follows.andThen (.selectors (.ask _)) hlast

/-- An operator means the same to its operands with a stack and without. -/
theorem follows_evaluateBinary (hroom : s.HasRoom) (op : Op) (a b : Value) :
    Follows scope s s (do pushValue (← onWorldExcept (evaluateBinary (← objects) op a b)))
      (do HostM.askExcept (evaluateBinary (← HostM.objects) op a b)) (onTop s) := by
  refine .objects (.pushed hroom (.askExcept fun w e w' herror => .inl ?_))
  exact (isComputed_evaluateBinary scope.objects op a b w).isCapacity (congrArg Prod.fst herror)

theorem follows_pushList (hroom : s.HasRoom) (element : Kind) (items : List Value) :
    Follows scope s s (pushList element items) (HostM.newList element items) (onTop s) :=
  (Follows.ask _).andThen fun _ => follows_pushValue hroom _

end EvalM

/-! ### Expressions -/

open EvalM

section

variable {σ : Type} {scope : Scope σ} {s : Stack}

/-- Wherever there is room for a value, evaluation follows the meaning. -/
theorem follows_eval (hroom : s.HasRoom) (n : Node) :
    Follows scope s s (eval n) n.meaning (onTop s) := by
  -- Whatever is evaluated next begins on `s` again, so there is always the same room for it.
  induction n using Node.inductionOn
    (motive_2 := fun fields => ∀ initializer object,
      (∃ typeName, scope.initializers.find? typeName = some initializer) →
        Follows scope s s (evalFields initializer object fields)
          (Node.fill initializer object fields) (back s))
    (motive_3 := fun items => ∀ element,
      Follows scope s s (evalItems element items) (Node.meanings element items) (back s))
  with
  | literal n v hv =>
    rw [eval_of_literal? hv, Node.meaning_of_literal? hv]
    exact follows_pushValue hroom v
  | ident name =>
    rw [eval, Node.meaning]
    exact follows_selectName hroom name
  | list element items hitems =>
    rw [eval, Node.meaning]
    exact (hitems element).andThen fun _ => follows_pushList hroom element _
  | construct typeName fields hfields =>
    rw [eval, Node.meaning]
    by_cases hname : typeName = ""
    · simp only [hname, if_true]
      exact .throw rfl
    · simp only [hname, if_false]
      -- The initializer is one of this scope, so that what it answers to a field is a `FieldFault`.
      refine .read ?_
      cases hfind : scope.initializers.find? typeName with
      | none => exact .throw rfl
      | some initializer =>
        refine (Follows.ask _).andThen fun blank => ?_
        exact (hfields initializer blank ⟨typeName, hfind⟩).andThen fun _ =>
          follows_pushValue hroom _
  | wrongArity op operands harity =>
    rw [eval_apply_of_length_ne harity, Node.meaning_of_length_ne harity]
    exact .throw rfl
  | ternary condition yes no hcondition hyes hno =>
    rw [eval_ternary, Node.meaning_ternary]
    -- The condition is popped, right kind or not, before anything else is pushed.
    refine hcondition.bind fun v => ?_
    cases v with
    | bool b =>
      refine Follows.after (perform_popScalar_holding b ⟨rfl, rfl⟩) ?_
      cases b with
      | true => exact hyes
      | false => exact hno
    | _ => exact follows_removeTop_throw hroom _ rfl
  | member owner member howner =>
    rw [eval_member, Node.meaning_member]
    exact (howner.popped hroom).andThen fun v =>
      (follows_memberOwner v).andThen fun owner => follows_memberOf hroom owner member
  | assignIdent name right hright =>
    rw [eval_assign_ident, Node.meaning_assign_ident]
    exact (hright.popped hroom).andThen fun v => follows_assignValue hroom none name v
  | assignMember owner name right howner hright =>
    rw [eval_assign_member, Node.meaning_assign_member]
    exact (howner.popped hroom).andThen fun v =>
      (follows_memberOwner v).andThen fun owner =>
        (hright.popped hroom).andThen fun v => follows_assignValue hroom (some owner) name v
  | assignOther target right htarget =>
    rw [eval_assign_of_not_isTarget htarget, Node.meaning_assign_of_not_isTarget htarget]
    exact .throw rfl
  | unary op operand hunary hoperand =>
    rw [eval_unary hunary, Node.meaning_unary hunary]
    exact (hoperand.popped hroom).andThen fun v =>
      .pushed hroom (.ofOutcome (fun _ => rfl) fun _ =>
        (isComputed_evaluateUnary op v).isCapacity)
  | binary op left right hbinary hmember hassign hleft hright =>
    rw [eval_binary hbinary hmember hassign, Node.meaning_binary hbinary hmember hassign]
    -- The left operand is off the stack before the right one is evaluated.
    refine (hleft.popped hroom).andThen fun a => ?_
    cases decided? op a with
    | some b => exact follows_pushValue hroom (.bool b)
    | none =>
      exact (hright.popped hroom).andThen fun b => follows_evaluateBinary hroom op a b
  | noField initializer object _ =>
    rw [evalFields, Node.fill]
    exact .pure rfl
  | field name right fields hright hfields initializer object hfind =>
    rcases hfind with ⟨typeName, hfind⟩
    rw [evalFields, Node.fill]
    refine (hright.popped hroom).andThen fun v => ?_
    refine (Follows.setField hfind object name v).andThen fun object' => ?_
    exact hfields initializer object' ⟨typeName, hfind⟩
  | otherField n fields hfield initializer object _ =>
    rw [evalFields_of_not_isField hfield, Node.fill_of_not_isField hfield]
    exact .throw rfl
  | noItem element =>
    rw [evalItems, Node.meanings]
    exact .pure rfl
  | item n items hn hitems element =>
    rw [evalItems, Node.meanings]
    refine hn.bind fun v => ?_
    exact (follows_popElement hroom element v).andThen fun v =>
      (hitems element).andThen fun vs => .pure rfl

end

/-! ## The value of an expression -/

variable {σ : Type} {scope : Scope σ} {s : Stack}

/-- The calls that the meaning of the expression makes, in their order. -/
def Node.meaningCalls (n : Node) (scope : Scope σ) (w : World σ) : List HostCall :=
  (n.meaning.perform scope.recorded ⟨(w.state, []), w.nextIdentity⟩).2.state.2

/-- On a stack with room for a value, evaluating an expression gives its meaning and leaves the
stack as it was. -/
theorem perform_evalValue (scope : Scope σ) (hroom : s.HasRoom) (n : Node) (w : World σ) :
    (evalValue n).perform scope ⟨s, w⟩
      = ((n.meaning.perform scope w).1, ⟨s, (n.meaning.perform scope w).2⟩) := by
  have hfollows : Follows scope s s (evalValue n) n.meaning (back s) :=
    (follows_eval hroom n).popped hroom
  rw [hfollows.perform_eq w]
  rcases n.meaning.perform scope w with ⟨e | v, w'⟩
  · rfl
  · rfl

/-- Where there is room for a value, an error about the stack is one that an initializer has
answered. -/
theorem isCapacity_or_refusesField (hroom : s.HasRoom) {n : Node} {w : World σ} {e : EvalError}
    {m' : Machine σ} (h : (eval n).perform scope ⟨s, w⟩ = (.error e, m')) :
    e.isCapacity = false ∨ n.RefusesField scope ⟨s, w⟩ e := by
  rcases exists_recorded_error h with ⟨m'', hrecorded, -⟩
  have hfollows : Follows scope.recorded s s (eval n) n.meaning (onTop s) := follows_eval hroom n
  have hperform := hfollows.perform_eq (Machine.recorded ⟨s, w⟩).world
  have hstart : (⟨s, (Machine.recorded ⟨s, w⟩).world⟩ : Machine _) = Machine.recorded ⟨s, w⟩ := rfl
  rw [hstart, hrecorded] at hperform
  rcases hmeaning : n.meaning.perform scope.recorded (Machine.recorded ⟨s, w⟩).world
    with ⟨e' | v, w'⟩
  · rw [hmeaning] at hperform
    cases hperform
    exact (hfollows.fault _ _ _ hmeaning).imp id (refusesField_of_fieldFault hrecorded)
  · rw [hmeaning] at hperform
    cases hperform

/-- On a stack with four free bytes and a free slot, an expression of any depth is evaluated to the
value or to the error that it means, whatever else is on the stack, and the host is asked the same
in the same order.  That the stack is too small is reported only if an initializer reports it on its
own, in the last call to the host that was made. -/
theorem evalValue_refines_meaning (scope : Scope σ) (n : Node) (hroom : s.HasRoom) (w : World σ) :
    (evalValue n).perform scope ⟨s, w⟩
      = ((n.meaning.perform scope w).1, ⟨s, (n.meaning.perform scope w).2⟩) ∧
    ((evalValue n).perform scope.recorded (Machine.recorded ⟨s, w⟩)).2.world.state.2
      = n.meaningCalls scope w ∧
    ∀ e m', (evalValue n).perform scope ⟨s, w⟩ = (.error (.capacity e), m') →
      n.RefusesField scope ⟨s, w⟩ (.capacity e) := by
  refine ⟨perform_evalValue scope hroom n w, ?_, ?_⟩
  · rw [Machine.recorded, perform_evalValue _ hroom, Node.meaningCalls]
  · intro e m' herror
    rw [perform_evalValue scope hroom] at herror
    rcases hmeaning : n.meaning.perform scope w with ⟨e' | v, w'⟩
    · rw [hmeaning] at herror
      cases herror
      have hfollows : Follows scope s s (eval n) n.meaning (onTop s) := follows_eval hroom n
      have heval := hfollows.perform_eq w
      rw [hmeaning] at heval
      rcases isCapacity_or_refusesField hroom heval with hoverflow | hrefuses
      · cases hoverflow
      · exact hrefuses
    · rw [hmeaning] at herror
      cases herror

/-- With room for one string more, `x + (x + (x + x))` is evaluated as it is meant: never are two
operands on the stack at once. -/
theorem evalValue_refines_meaning_add :
    let scope : Scope Unit :=
      { objects := {}
        selectors := [(⟨0⟩, .readOnly fun _ _ => pure (some (.str "a")))]
        initializers := .empty }
    let s : Stack := ⟨8, 2, [0, 0, 0, 0], [.str "below"]⟩
    let w : World Unit := ⟨(), 0⟩
    let x : Node := .ident "x"
    let n : Node := .apply .add [x, .apply .add [x, .apply .add [x, x]]]
    let call : HostCall := .select ⟨0⟩ none "x"
    s.HasRoom ∧ (evalValue n).perform scope ⟨s, w⟩ = (.ok (.str "aaaa"), ⟨s, w⟩) ∧
      n.meaningCalls scope w = [call, call, call, call] ∧
      ((evalValue n).perform scope.recorded (Machine.recorded ⟨s, w⟩)).2.world.state.2
        = n.meaningCalls scope w := by
  intro scope s w x n call
  have hroom : s.HasRoom := by
    constructor <;> decide
  have hmeaning : n.meaning.perform scope w = (.ok (.str "aaaa"), w) := rfl
  have hrefines := evalValue_refines_meaning scope n hroom w
  refine ⟨hroom, ?_, rfl, hrefines.2.1⟩
  rw [hrefines.1, hmeaning]

end Edict
