import Edict.Interpreter
import Edict.Native.Function
import Edict.Proofs.Discipline

namespace Edict

/-! # An instruction leaves its result or nothing

Functions and modifiers are the host's own, and one that fails may leave on the stack whatever it
has pushed by then.  All that is asked of them is that what was on the stack before stays at the
bottom, and that one that succeeds leaves its result there and nothing more.  Then an instruction
that fails anywhere leaves the stack as it was: a mark is taken at the start, and everything above
it is dropped.  The host must not touch the stack itself when it is told that an instruction begins
or has completed.

Main statements:

* `ends_execute`: an instruction leaves its result on the stack, or leaves the stack as it was;
* `execute_atomic`: the same in full, with results that are popped as a native type, and with the
  functions, modifiers, return types and notes that the library brings along.
-/

/-! ## Steps of an instruction -/

/-- A stack that has a result on top has the stack from before at the bottom. -/
theorem Stack.under_of_leaves {s s' : Stack} {info : ValueInfo} (h : EvalM.Leaves s info s') :
    s.Under s' := by
  rcases h with ⟨v, -, rfl, -⟩
  exact s.under_holding v

namespace CallM

open EvalM (Leaves Back)

variable {σ τ α β : Type} {s start : Stack} {fail : Stack → Prop}

/-- Begun on the stack `start`, the step has a result and leaves a stack that `post` allows, or
fails and leaves one that `fail` allows. -/
structure Ends (start : Stack) (act : CallM σ τ α) (post : α → Stack → Prop)
    (fail : Stack → Prop) : Prop where
  outcome : ∀ r, r.context.stack = start → match act.run r with
    | (.ok a, r') => post a r'.context.stack
    | (.error _, r') => fail r'.context.stack

/-- Two steps one after the other; the whole may fail as either of them may. -/
theorem Ends.bind {act : CallM σ τ α} {next : α → CallM σ τ β} {mid : α → Stack → Prop}
    {post : β → Stack → Prop} (hact : Ends start act mid fail)
    (hnext : ∀ a s', mid a s' → Ends s' (next a) post fail) :
    Ends start (act >>= next) post fail := by
  refine ⟨fun r hr => ?_⟩
  rw [run_bind]
  have h := hact.outcome r hr
  rcases hp : act.run r with ⟨e | a, r'⟩
  · rw [hp] at h
    exact h
  · rw [hp] at h
    exact (hnext a _ h).outcome r' rfl

/-- What follows a step that leaves the stack alone begins where that began. -/
theorem Ends.andThen {act : CallM σ τ α} {next : α → CallM σ τ β} {post : β → Stack → Prop}
    (hact : Ends start act (Back s) fail) (hnext : ∀ a, Ends s (next a) post fail) :
    Ends start (act >>= next) post fail := by
  refine hact.bind fun a s' hs => ?_
  obtain rfl : s' = s := hs
  exact hnext a

theorem Ends.pure {a : α} {post : α → Stack → Prop} (h : post a start) :
    Ends start (pure a : CallM σ τ α) post fail := by
  constructor
  rintro r rfl
  exact h

/-- A step that fails leaves the stack as it finds it. -/
theorem Ends.throw {e : Error} {post : α → Stack → Prop} (h : fail start) :
    Ends start (throw e : CallM σ τ α) post fail := by
  constructor
  rintro r rfl
  exact h

theorem ends_throw_bind {e : Error} {next : α → CallM σ τ β} {post : β → Stack → Prop}
    (h : fail start) : Ends start (throw e >>= next) post fail := by
  constructor
  rintro r rfl
  exact h

theorem Ends.ofOutcome {outcome : Except Error α} (h : fail s) :
    Ends s (ofOutcome outcome : CallM σ τ α) (Back s) fail := by
  constructor
  rintro r rfl
  cases outcome with
  | ok a => rfl
  | error e => exact h

/-- An action of evaluation ends in an instruction as it does by itself. -/
theorem Ends.evaluate {act : EvalM σ α} {post : α → Stack → Prop}
    (h : ∀ scope, EvalM.Ends scope s start act post) (hfail : fail s) :
    Ends start (evaluate act : CallM σ τ α) post fail := by
  constructor
  rintro r rfl
  have houtcome := (h r.context.evaluator.scope).outcome r.context.evaluator.machine.world
  have hmachine : r.context.evaluator.machine
      = ⟨r.context.stack, r.context.evaluator.machine.world⟩ := rfl
  rcases hp : act.perform r.context.evaluator.scope r.context.evaluator.machine with ⟨e | a, m⟩
  · rw [← hmachine, hp] at houtcome
    rw [run_evaluate hp]
    show fail m.stack
    rw [houtcome.1]
    exact hfail
  · rw [← hmachine, hp] at houtcome
    rw [run_evaluate hp]
    exact houtcome

/-- The host does not touch the stack. -/
theorem Ends.host {act : ExceptT Error (StateM (World σ)) α} (h : fail s) :
    Ends s (host act : CallM σ τ α) (Back s) fail := by
  constructor
  rintro r rfl
  have hrun : (host act : CallM σ τ α).run r = ((act.run r.context.evaluator.machine.world).1,
    { r with context.evaluator.machine.world := (act.run r.context.evaluator.machine.world).2 }) :=
    rfl
  rw [hrun]
  cases (act.run r.context.evaluator.machine.world).1 with
  | ok a => rfl
  | error e => exact h

/-- A step that cannot fail and leaves the stack alone. -/
theorem Ends.lift {act : StateM (Runtime σ τ) α}
    (h : ∀ r, (act.run r).2.context.stack = r.context.stack) :
    Ends s (ExceptT.lift act) (Back s) fail := by
  constructor
  rintro r rfl
  exact h r

theorem Ends.context : Ends s (context : CallM σ τ (Context σ τ)) (Back s) fail := by
  constructor
  rintro r rfl
  rfl

/-- A step that keeps what was on the stack leaves the stack as it was if it fails under a mark. -/
theorem Ends.restoring {act : CallM σ τ α} {post : α → Stack → Prop}
    (h : Ends s act post s.Under) : Ends s (restoring act) post (· = s) := by
  constructor
  rintro r rfl
  have houtcome := h.outcome r rfl
  rw [run_restoring]
  rcases hp : act.run r with ⟨e | a, r'⟩
  · rw [hp] at houtcome
    exact houtcome.resetTo_mark
  · rw [hp] at houtcome
    exact houtcome

/-- A step that ends where it began, whatever its outcome, does not change the stack. -/
theorem Ends.stack_eq {act : CallM σ τ α} {r : Runtime σ τ}
    (h : Ends r.context.stack act (Back r.context.stack) (· = r.context.stack)) :
    (act.run r).2.context.stack = r.context.stack := by
  have houtcome := h.outcome r rfl
  rcases hp : act.run r with ⟨e | a, r'⟩
  · rw [hp] at houtcome
    exact houtcome
  · rw [hp] at houtcome
    exact houtcome

end CallM

/-! ## What is asked of functions and modifiers -/

open CallM EvalM

variable {σ τ : Type}

/-- What was on the stack when the function was called stays there, and if it succeeds, its result
lies above it and nothing more. -/
def Function.StackSafe (f : Function σ τ) : Prop :=
  ∀ args s, CallM.Ends s (f.invoke args) (Leaves s) s.Under

/-- The modifier takes nothing from the stack but the result that it is applied to, and if it
succeeds, the new result lies in its place and nothing more. -/
def Modifier.StackSafe (m : Modifier σ τ) : Prop :=
  ∀ s info start, Leaves s info start → CallM.Ends start (m.apply info) (Leaves s) s.Under

/-- What was on the stack when a result is handed over stays there, and if that succeeds, the result
lies above it and nothing more. -/
def ReturnType.StackSafe (t : ReturnType σ) : Prop :=
  ∀ function (a : t.Carrier) (ev : Evaluator σ), match (t.leave function a).run ev with
    | (.ok info, ev') => Leaves ev.machine.stack info ev'.machine.stack
    | (.error _, ev') => ev.machine.stack.Under ev'.machine.stack

/-- A body that works on the context leaves its stack as it is, and the result is handed over as
described. -/
structure NativeFunction.StackSafe (f : NativeFunction σ τ) : Prop where
  body : match f.body with
    | .detached _ => True
    | .contextual run => ∀ arguments c, ((run arguments).run c).2.stack = c.stack
  result : f.result.StackSafe

/-- The host leaves the stack alone when it is told of an instruction. -/
structure Observer.LeavesStack (σ τ : Type) [Observer σ τ] : Prop where
  begun : ∀ (i : Instruction σ τ) r, ((Observer.begun i).run r).2.context.stack = r.context.stack
  completed : ∀ (i : Instruction σ τ) info r,
    ((Observer.completed i info).run r).2.context.stack = r.context.stack

/-! ### What the library brings along -/

/-- A host that keeps a journal does not touch the stack. -/
theorem Journal.leavesStack : Observer.LeavesStack σ Notes where
  begun _ _ := rfl
  completed _ _ _ := rfl

/-- A result that stands for a value is pushed as this value. -/
theorem ReturnType.stackSafe_ofValue {α : Type} (toValue : α → Value) :
    (ofValue toValue : ReturnType σ).StackSafe := by
  intro function a ev
  have hrun : ((ofValue toValue : ReturnType σ).leave function a).run ev
      = (((pushValue (toValue a)).perform ev.scope ev.machine).1.mapError .eval,
        { ev with machine := ((pushValue (toValue a)).perform ev.scope ev.machine).2 }) := rfl
  rw [hrun, perform_pushValue]
  cases hroom : ev.machine.stack.overflow? (toValue a) with
  | none => exact ⟨toValue a, rfl, rfl, hroom⟩
  | some e => exact .refl _

/-- A result that may be a failure is handed over as the result is, or not at all. -/
theorem ReturnType.StackSafe.orFailure {t : ReturnType σ} (h : t.StackSafe) :
    t.orFailure.StackSafe := by
  intro function a ev
  cases a with
  | ok a => exact h function a ev
  | error text => exact .refl _

theorem ends_firstArgument {s : Stack} (name : String) (args : List Node) :
    CallM.Ends s (Function.firstArgument name args : CallM σ τ Node) (Back s) s.Under := by
  cases args with
  | nil => exact .throw (.refl s)
  | cons arg args => exact .pure rfl

/-- What is printed is not left on the stack. -/
theorem Function.stackSafe_printer : (printer : Function σ τ).StackSafe := by
  intro args s
  refine (ends_firstArgument "Print" args).andThen fun arg => ?_
  have htext : ∀ scope : Scope σ, EvalM.Ends scope s s (evalText arg) (Back s) :=
    fun scope => (ends_eval arg s).bind fun _ _ => ends_popText
  refine (CallM.Ends.evaluate htext (.refl s)).andThen fun text => ?_
  constructor
  rintro r rfl
  exact ⟨.void, rfl, by simp, rfl⟩

/-- What is evaluated is left on the stack. -/
theorem Function.stackSafe_evaluator : (evaluator : Function σ τ).StackSafe := by
  intro args s
  exact (ends_firstArgument "Evaluate" args).andThen fun arg =>
    .evaluate (fun _ => ends_eval arg s) (.refl s)

/-- Negation takes the result and leaves its opposite. -/
theorem Modifier.stackSafe_negator : (negator : Modifier σ τ).StackSafe := by
  intro s info start hleft
  unfold negator
  dsimp only
  cases negation? info.kind with
  | none => exact .throw (Stack.under_of_leaves hleft)
  | some op =>
    -- The operand is gone when the operator fails, so that `s` is all there is.
    refine .evaluate (fun scope => ?_) (.refl s)
    refine (ends_popValue hleft).bind fun v s' hpop => ?_
    rcases hpop with ⟨rfl, -⟩
    exact (EvalM.Ends.ofOutcome fun _ => (isComputed_evaluateUnary op v).isCapacity).andThen
      fun _ => ends_pushValue _

namespace NativeFunction

/-- Each argument is popped before the next one is evaluated. -/
theorem ends_evalArguments {s : Stack} (args : List Node) :
    CallM.Ends s (evalArguments args : CallM σ τ (List Value)) (Back s) s.Under := by
  induction args with
  | nil => exact .pure rfl
  | cons arg args ih =>
    have hvalue : ∀ scope : Scope σ, EvalM.Ends scope s s (evalValue arg) (Back s) :=
      fun scope => ends_popped (ends_eval arg s)
    exact (CallM.Ends.evaluate hvalue (.refl s)).andThen fun _ => ih.andThen fun _ => .pure rfl

/-- What hands a result over ends as its type says. -/
theorem ends_onEvaluator {t : ReturnType σ} (h : t.StackSafe) (function : String) (a : t.Carrier)
    (s : Stack) :
    CallM.Ends s (CallM.onEvaluator (t.leave function a) : CallM σ τ ValueInfo) (Leaves s)
      s.Under := by
  constructor
  rintro r rfl
  have houtcome := h function a r.context.evaluator
  have hrun : (CallM.onEvaluator (t.leave function a) : CallM σ τ ValueInfo).run r
      = (((t.leave function a).run r.context.evaluator).1, { r with context :=
        { r.context with evaluator := ((t.leave function a).run r.context.evaluator).2 } }) := rfl
  rw [hrun]
  rcases hp : (t.leave function a).run r.context.evaluator with ⟨e | info, ev⟩
  · rw [hp] at houtcome
    exact houtcome
  · rw [hp] at houtcome
    exact houtcome

/-- A native function that is given its arguments leaves its result. -/
theorem ends_run {f : NativeFunction σ τ} (h : f.StackSafe) (arguments : Arguments f.parameters)
    (s : Stack) : CallM.Ends s (f.run arguments) (Leaves s) s.Under := by
  rcases f with ⟨name, parameters, result, body, defaults⟩
  have hresult : ∀ a, CallM.Ends s (CallM.onEvaluator (result.leave name a) : CallM σ τ ValueInfo)
      (Leaves s) s.Under := fun a => ends_onEvaluator h.result name a s
  unfold run
  cases body with
  | detached body => exact (CallM.Ends.host (.refl s)).andThen hresult
  | contextual body =>
    refine CallM.Ends.andThen ?_ hresult
    constructor
    rintro r rfl
    exact h.body arguments r.context

/-- A native function whose body leaves the stack alone leaves its result and nothing more. -/
theorem stackSafe_toFunction {f : NativeFunction σ τ} (h : f.StackSafe) :
    f.toFunction.StackSafe := by
  intro args s
  show CallM.Ends s (f.invoke args) (Leaves s) s.Under
  unfold invoke
  split
  · exact .throw (.refl s)
  · refine (ends_evalArguments _).andThen fun given => ?_
    refine CallM.Ends.context.andThen fun context => ?_
    exact (CallM.Ends.host (.refl s)).andThen fun arguments => ends_run h arguments s

end NativeFunction

/-! ## Instructions -/

/-- Modifiers one after the other leave one result in place of another. -/
theorem ends_applyModifiers {modifiers : List (Modifier σ τ)}
    (hmodifiers : ∀ m ∈ modifiers, m.StackSafe) {s start : Stack} {info : ValueInfo}
    (hleft : Leaves s info start) :
    CallM.Ends start (Instruction.applyModifiers modifiers info) (Leaves s) s.Under := by
  -- Each modifier finds the result of the one before where the first one found its own.
  induction modifiers generalizing info start with
  | nil => exact .pure hleft
  | cons m modifiers ih =>
    have hfirst : m.StackSafe := hmodifiers m List.mem_cons_self
    have hrest : ∀ m' ∈ modifiers, m'.StackSafe :=
      fun m' hm' => hmodifiers m' (List.mem_cons_of_mem m hm')
    exact (hfirst s info start hleft).bind fun info' s' hleft' => ih hrest hleft'

/-- A result is popped, whether it is of the native type or not. -/
theorem ends_popAs (t : NativeType σ) {s start : Stack} {fail : Stack → Prop} {info : ValueInfo}
    (hleft : Leaves s info start) (hfail : fail s) :
    CallM.Ends start (popAs t info : CallM σ τ t.Carrier) (Back s) fail := by
  have hdrop : CallM.Ends start (evaluate (removeTop info) : CallM σ τ Unit) (Back s) fail :=
    .evaluate (fun _ => ends_removeTop hleft) hfail
  have hpop : CallM.Ends start (evaluate (popValue info) : CallM σ τ Value) (Back s) fail :=
    .evaluate (fun _ => (ends_popValue hleft).mono fun _ _ hpop => hpop.1) hfail
  unfold popAs
  dsimp only
  split
  · exact hdrop.andThen fun _ => CallM.ends_throw_bind hfail
  · refine hpop.andThen fun v => (CallM.Ends.host hfail).andThen fun a? => ?_
    cases a? with
    | some a => exact .pure rfl
    | none => exact .throw hfail

/-- An expression that is evaluated for its value as a native type leaves nothing. -/
theorem ends_evaluateAs (t : NativeType σ) (n : Node) (s : Stack) :
    CallM.Ends s (restoring do popAs t (← evaluate (eval n)) : CallM σ τ t.Carrier) (Back s)
      (· = s) := by
  have heval : CallM.Ends s (evaluate (eval n) : CallM σ τ ValueInfo) (Leaves s) s.Under :=
    .evaluate (fun _ => ends_eval n s) (.refl s)
  exact (heval.bind fun _ _ hleft => ends_popAs t hleft (.refl s)).restoring

/-- Evaluating an expression without an instruction leaves nothing. -/
theorem stack_evaluateExpression (t : NativeType σ) (text : String) (s : Session σ τ) :
    ((Session.evaluateExpression t text).run s).2.context.stack = s.context.stack := by
  unfold Session.evaluateExpression
  have hcall : ∀ act : CallM σ τ t.Carrier, ((Session.call act).run s).2.context
      = (act.run ⟨s.context, s.interpreter.output⟩).2.context := fun _ => rfl
  have hparse : ∀ outcome : Except Error Node, CallM.Ends s.context.stack
      (CallM.ofOutcome outcome : CallM σ τ Node) (Back s.context.stack) (· = s.context.stack) :=
    fun _ => .ofOutcome rfl
  rw [Session.call_bind, hcall]
  exact ((hparse _).andThen fun n => ends_evaluateAs t n s.context.stack).stack_eq

variable [Observer σ τ] {i : Instruction σ τ}

/-- An instruction leaves its result, or has what was on the stack still at the bottom when it
fails. -/
theorem ends_instruction (hobserver : Observer.LeavesStack σ τ) (hfunction : i.function.StackSafe)
    (hmodifiers : ∀ m ∈ i.modifiers, m.StackSafe) (s : Stack) :
    CallM.Ends s i.run (Leaves s) s.Under := by
  refine (CallM.Ends.lift (hobserver.begun i)).andThen fun _ => ?_
  refine (hfunction i.parameters s).bind fun info s' hleft => ?_
  refine (ends_applyModifiers hmodifiers hleft).bind fun info' s'' hleft' => ?_
  refine (CallM.Ends.lift (hobserver.completed i info')).bind fun _ s₃ hs => ?_
  obtain rfl : s₃ = s'' := hs
  exact .pure hleft'

/-- An instruction ends with its result on the stack, or fails with the stack as it was. -/
theorem ends_execute (hobserver : Observer.LeavesStack σ τ) (hfunction : i.function.StackSafe)
    (hmodifiers : ∀ m ∈ i.modifiers, m.StackSafe) (s : Stack) :
    CallM.Ends s i.execute (Leaves s) (· = s) :=
  (ends_instruction hobserver hfunction hmodifiers s).restoring

/-- An instruction whose result is popped leaves nothing. -/
theorem ends_executeAs (hobserver : Observer.LeavesStack σ τ) (hfunction : i.function.StackSafe)
    (hmodifiers : ∀ m ∈ i.modifiers, m.StackSafe) (t : NativeType σ) (s : Stack) :
    CallM.Ends s (i.executeAs t) (Back s) (· = s) :=
  (ends_execute hobserver hfunction hmodifiers s).bind fun _ _ hleft => ends_popAs t hleft rfl

/-- An instruction leaves its result on the stack, or leaves the stack as it was, wherever it fails:
in the function, in an argument, in a conversion or in one of the modifiers.

When it succeeds, one value has been added, the one that the result tells the kind and the place of.
When its result is popped as a native type, nothing is left, be it of that type or not; nor is
anything left of an expression that is evaluated without an instruction.

What this needs of the function and of the modifiers is true of those that the library brings along,
and of every native function whose body leaves the stack alone and whose results are handed over as
they are told of, as results of the ready-made types are.  What it needs of the host is true of one
that keeps a journal. -/
theorem execute_atomic (hobserver : Observer.LeavesStack σ τ) (i : Instruction σ τ)
    (hfunction : i.function.StackSafe) (hmodifiers : ∀ m ∈ i.modifiers, m.StackSafe)
    (r : Runtime σ τ) :
    (match i.execute.run r with
      | (.ok info, r') => Leaves r.context.stack info r'.context.stack
      | (.error _, r') => r'.context.stack = r.context.stack) ∧
    (∀ t, ((i.executeAs t).run r).2.context.stack = r.context.stack) ∧
    (∀ (t : NativeType σ) (text : String) (interpreter : Interpreter σ τ),
      ((Session.evaluateExpression t text).run ⟨interpreter, r.context⟩).2.context.stack
        = r.context.stack) ∧
    (Function.printer : Function σ τ).StackSafe ∧ (Function.evaluator : Function σ τ).StackSafe ∧
    (∀ f : NativeFunction σ τ, f.StackSafe → f.toFunction.StackSafe) ∧
    (Modifier.negator : Modifier σ τ).StackSafe ∧
    (∀ (α : Type) (toValue : α → Value), (ReturnType.ofValue toValue : ReturnType σ).StackSafe) ∧
    (∀ t : ReturnType σ, t.StackSafe → t.orFailure.StackSafe) ∧
    Observer.LeavesStack σ Notes := by
  refine ⟨?_, ?_, ?_, Function.stackSafe_printer, Function.stackSafe_evaluator, ?_,
    Modifier.stackSafe_negator, fun _ => ReturnType.stackSafe_ofValue, fun _ ht => ht.orFailure,
    Journal.leavesStack⟩
  · -- What fails is dropped down to the mark, below which nothing was touched.
    have houtcome := (ends_execute hobserver hfunction hmodifiers r.context.stack).outcome r rfl
    rcases hp : i.execute.run r with ⟨e | info, r'⟩
    · rw [hp] at houtcome
      exact houtcome
    · rw [hp] at houtcome
      exact houtcome
  · intro t
    exact (ends_executeAs hobserver hfunction hmodifiers t r.context.stack).stack_eq
  · intro t text interpreter
    exact stack_evaluateExpression t text ⟨interpreter, r.context⟩
  · intro f hf
    exact NativeFunction.stackSafe_toFunction hf

/-- A string cannot be negated: `Evaluate: "a" -> neg` fails while the string is on the stack, and
the string is dropped. -/
theorem execute_atomic_negated_string :
    let stack : Stack := ⟨16, 2, [1, 0, 0, 0], []⟩
    let r : Runtime Unit Notes :=
      ⟨⟨⟨⟨{}, [], .empty⟩, 0, .empty, ⟨stack, ⟨(), 0⟩⟩⟩, some .blank⟩, .silent⟩
    let i : Instruction Unit Notes :=
      ⟨"Evaluate: \"a\" -> neg", .evaluator, [.str "a"], [.negator], false⟩
    Observer.LeavesStack Unit Notes ∧
      i.function.StackSafe ∧ (∀ m ∈ i.modifiers, m.StackSafe) ∧
      (i.execute.run r).1 = .error (.binding (.unsupportedModifierKind "neg" .string)) ∧
      (i.execute.run r).2.context.stack = stack := by
  intro stack r i
  have hfunction : i.function.StackSafe := Function.stackSafe_evaluator
  have hmodifiers : ∀ m ∈ i.modifiers, m.StackSafe := by
    intro m hm
    rw [List.mem_singleton.mp hm]
    exact Modifier.stackSafe_negator
  have hoverflow : (i.execute.run r).1
      = .error (.binding (.unsupportedModifierKind "neg" .string)) := rfl
  have hatomic := (execute_atomic Journal.leavesStack i hfunction hmodifiers r).1
  rcases hp : i.execute.run r with ⟨e | info, r'⟩
  · rw [hp] at hatomic hoverflow
    exact ⟨Journal.leavesStack, hfunction, hmodifiers, hoverflow, hatomic⟩
  · rw [hp] at hoverflow
    cases hoverflow

/-! ### Hosts that clear the stack

Both conditions on the host are needed. -/

/-- The notes of a host that clears the stack when an instruction begins. -/
inductive Sweeping
  | swept

instance Sweeping.observer : Observer Unit Sweeping where
  begun _ := modify fun r =>
    { r with context.evaluator.machine.stack := r.context.evaluator.machine.stack.clear }

/-- A type whose results clear the stack and are refused. -/
def ReturnType.sweeping : ReturnType Unit where
  Carrier := Unit
  leave function _ := fun ev =>
    (.error (.binding (.nativeFailure function "refused")),
      { ev with machine := { ev.machine with stack := ev.machine.stack.clear } })

/-- With a host that clears the stack before `Evaluate: x`, or with a native function whose body
does nothing but whose result clears the stack, the instruction fails and what was on the stack is
gone. -/
theorem execute_not_atomic_sweeping :
    let stack : Stack := ⟨16, 2, [1, 0, 0, 0], []⟩
    let r : Runtime Unit Sweeping :=
      ⟨⟨⟨⟨{}, [], .empty⟩, 0, .empty, ⟨stack, ⟨(), 0⟩⟩⟩, .swept⟩, .silent⟩
    let i : Instruction Unit Sweeping := ⟨"Evaluate: x", .evaluator, [.ident "x"], [], false⟩
    let r' : Runtime Unit Notes :=
      ⟨⟨⟨⟨{}, [], .empty⟩, 0, .empty, ⟨stack, ⟨(), 0⟩⟩⟩, none⟩, .silent⟩
    let f : NativeFunction Unit Notes :=
      ⟨"Sweep", [], .sweeping, .detached fun _ => pure (), []⟩
    let i' : Instruction Unit Notes := ⟨"Sweep:", f.toFunction, [], [], false⟩
    i.function.StackSafe ∧ i.modifiers = [] ∧
      (i.execute.run r).1 = .error (.eval (.undefinedIdentifier "x")) ∧
      (i.execute.run r).2.context.stack ≠ r.context.stack ∧
      (i'.execute.run r').1 = .error (.binding (.nativeFailure "Sweep" "refused")) ∧
      (i'.execute.run r').2.context.stack ≠ r'.context.stack := by
  intro stack r i r' f i'
  have hlength : (i.execute.run r).2.context.stack.length = 0 := rfl
  have hlength' : (i'.execute.run r').2.context.stack.length = 0 := rfl
  refine ⟨Function.stackSafe_evaluator, rfl, rfl, ?_, rfl, ?_⟩
  · intro h
    rw [h] at hlength
    cases hlength
  · intro h
    rw [h] at hlength'
    cases hlength'

end Edict
