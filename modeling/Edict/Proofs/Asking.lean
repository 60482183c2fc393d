import Edict.Proofs.Discipline
import Edict.Proofs.Subtrees

namespace Edict

/-! # Actions that ask nothing but objects

Folding evaluates operations on literals, and no such operation gets as far as a name, a member of a
name or a new object.  All that it may ask for is the string form and the elements of the objects
that stand in it as literals.  `Asking` says so of an action by how it is put together, and three
things follow from that:

* it leaves the stack as it was, and of the world what asking objects makes of it (`Asking.asked`);
* if there is no object to be asked, it changes nothing, and its outcome depends on the stack alone
  (`Asking.inert`);
* if the objects answer the same whenever they are asked, a result of it is its result whenever it
  is run (`Asking.run_eq`).

Folding is such an action: `asking_fold`.
-/

open EvalM

/-! ## What an action is put together from -/

/-- If the value is an object, `p` holds of it. -/
def Value.ObjectsIn (p : ObjectRef → Prop) (v : Value) : Prop := ∀ o, v = .object o → p o

/-- A plain value has no objects in it. -/
theorem Value.objectsIn_of_isPlain {p : ObjectRef → Prop} {v : Value} (h : v.isPlain = true) :
    v.ObjectsIn p := by
  rintro o rfl
  cases h

/-- The action is put together from values that are pushed and popped at once and from questions to
objects that `p` holds of, so that `post` holds of its result if `p` holds of every element of an
object that it holds of. -/
inductive Asking (p : ObjectRef → Prop) :
    {α : Type} → (α → Prop) → ((σ : Type) → EvalM σ α) → Prop
  | pure {α : Type} {post : α → Prop} {a : α} (h : post a) : Asking p post fun _ => pure a
  | throw {α : Type} {post : α → Prop} (e : EvalError) : Asking p post fun _ => throw e
  | bind {α β : Type} {mid : α → Prop} {post : β → Prop} {act : (σ : Type) → EvalM σ α}
    {next : (σ : Type) → α → EvalM σ β} (hact : Asking p mid act)
    (hnext : ∀ a, mid a → Asking p post fun σ => next σ a) : Asking p post fun σ => act σ >>= next σ
  | restoring {α : Type} {post : α → Prop} {act : (σ : Type) → EvalM σ α} (h : Asking p post act) :
    Asking p post fun σ => restoring (act σ)
  /-- A value is pushed and popped. -/
  | popped {post : Value → Prop} {v : Value} (h : post v) :
    Asking p post fun _ => popped (pushValue v)
  /-- An object is asked for its string form. -/
  | text {o : ObjectRef} (h : p o) :
    Asking p (fun _ => True) fun _ => do onWorld ((← objects).text o)
  /-- An object is asked for an element. -/
  | element {o : ObjectRef} (h : p o) (index : Int32) :
    Asking p (Value.ObjectsIn p) fun _ => do onWorldExcept ((← objects).element o index)

/-! ## Results of evaluation, popped -/

namespace EvalM

variable {σ α β : Type} {scope : Scope σ}

/-- Actions that do the same on every machine are the same. -/
theorem ext {act act' : EvalM σ α} (h : ∀ scope m, act.perform scope m = act'.perform scope m) :
    act = act' :=
  funext fun scope => funext fun m => h scope m

/-- Popping what comes of two steps is popping what comes of the second. -/
theorem popped_bind (act : EvalM σ α) (next : α → EvalM σ ValueInfo) :
    popped (act >>= next) = act >>= fun a => popped (next a) := by
  rw [popped, bind_assoc]
  rfl

theorem perform_restoring (act : EvalM σ α) (scope : Scope σ) (m : Machine σ) :
    (restoring act).perform scope m = match act.perform scope m with
      | (.ok a, m') => (.ok a, m')
      | (.error e, m') => (.error e, { m' with stack := m'.stack.resetTo m.stack.mark }) := rfl

/-- What is pushed where it fits is popped as it was, and leaves no trace. -/
theorem perform_popped_pushValue (scope : Scope σ) (v : Value) (m : Machine σ) :
    (popped (pushValue v)).perform scope m = match m.stack.overflow? v with
      | none => (.ok v, m)
      | some e => (.error (.capacity e), m) := by
  rcases m with ⟨s, w⟩
  rw [popped, perform_bind, perform_pushValue]
  cases hroom : s.overflow? v with
  | none => exact perform_popValue scope hroom w
  | some e => rfl

/-- Where there is room for what an action finds, it is pushed and popped without a trace. -/
theorem perform_popped_found {act : EvalM σ Value} {outcome : Except EvalError Value}
    {m m' : Machine σ} (hact : act.perform scope m = (outcome, m'))
    (hroom : ∀ v, outcome = .ok v → m'.stack.overflow? v = none) :
    (popped (act >>= pushValue)).perform scope m = (outcome, m') := by
  rw [popped_bind, perform_bind, hact]
  cases outcome with
  | error e => rfl
  | ok v =>
    dsimp only
    rw [perform_popped_pushValue, hroom v rfl]

/-- A choice between two branches by a literal, which is popped before it is looked at. -/
theorem eval_ternary_of_literal? {condition : Node} {v : Value} (h : condition.literal? = some v)
    (yes no : Node) :
    (eval (.apply .ternary [condition, yes, no]) : EvalM σ ValueInfo) = (do
      match ← popped (pushValue v) with
      | .bool true => eval yes
      | .bool false => eval no
      | v => throw (.ternaryCondition v.kind)) := by
  refine ext fun scope m => ?_
  rcases m with ⟨s, w⟩
  rw [eval_ternary, eval_of_literal? h, perform_bind, perform_bind, perform_popped_pushValue,
    perform_pushValue]
  cases hroom : s.overflow? v with
  | some e => rfl
  | none =>
    dsimp only
    cases v with
    -- Only a truth value is read as its byte; anything else is dropped for the error.
    | bool b =>
      have hpop := perform_popScalar scope b s w
      have hholding : s.holding (.bool b) = { s with bytes := s.bytes ++ Scalar.encode b } := by
        simp [Stack.holding, Value.bytes, Value.boxed]
      simp only [Stack.kind_place, Value.kind, if_true]
      rw [perform_bind, hholding, hpop]
      cases b <;> rfl
    | _ =>
      have hpop := perform_popValue scope hroom w
      simp only [Stack.kind_place, Value.kind, reduceCtorEq, if_false, removeTop, bind_assoc]
      rw [perform_bind, hpop]
      rfl

end EvalM

/-! ## Operations on literals -/

/-- A literal is nothing that can be assigned to, and no field. -/
theorem Node.isTarget_eq_false_of_isLiteral {n : Node} (h : n.isLiteral = true) :
    n.isTarget = false := by
  cases n <;> first | rfl | cases h

theorem Node.isField_eq_false_of_isLiteral {n : Node} (h : n.isLiteral = true) :
    n.isField = false := by
  cases n <;> first | rfl | cases h

section

variable {p : ObjectRef → Prop}

/-- No literal stands for `void`. -/
theorem Node.ne_void_of_literal? {n : Node} {v : Value} (h : n.literal? = some v) : v ≠ .void := by
  rintro rfl
  cases n <;> cases h

theorem Node.eq_object_of_literal? {n : Node} {o : ObjectRef} (h : n.literal? = some (.object o)) :
    n = .object o := by
  cases n <;> cases h
  rfl

/-- The objects in a literal are those in its value. -/
theorem Node.ObjectsIn.value {n : Node} {v : Value} (h : n.ObjectsIn p)
    (hliteral : n.literal? = some v) : v.ObjectsIn p := by
  rintro o rfl
  cases n <;> cases hliteral
  exact h o (Node.mem_subtrees_self _)

/-- Of what an action gives, less may be said. -/
theorem Asking.mono {α : Type} {post post' : α → Prop} {act : (σ : Type) → EvalM σ α}
    (h : Asking p post act) (himp : ∀ a, post a → post' a) : Asking p post' act := by
  have hpure : ∀ a, post a → Asking p post' fun σ => (Pure.pure a : EvalM σ α) :=
    fun a ha => .pure (himp a ha)
  simpa only [bind_pure] using h.bind hpure

/-- An outcome that is known asks nobody. -/
theorem asking_ofOutcome {α : Type} (outcome : Except EvalError α) :
    Asking p (fun a => outcome = .ok a) fun _ => ofOutcome outcome := by
  cases outcome with
  | ok a => exact .pure rfl
  | error e => exact .throw e

/-- The object whose string form an operator needs is one of its operands. -/
theorem objectsIn_of_spelled? {a b : Value} {o : ObjectRef} (ha : a.ObjectsIn p)
    (hb : b.ObjectsIn p) (h : spelled? a b = some o) : p o := by
  unfold spelled? at h
  split at h
  · cases h
    exact hb o rfl
  · cases h
    exact ha o rfl
  · cases h

/-- An operator asks an operand at most, and gives a plain value. -/
theorem asking_evaluateBinary {a b : Value} (op : Op) (ha : a.ObjectsIn p) (hb : b.ObjectsIn p) :
    Asking p (fun v : Value => v.isPlain = true)
      fun _ => (do onWorldExcept (evaluateBinary (← objects) op a b)) := by
  have hknown : ∀ objectText, Asking p (fun v : Value => v.isPlain = true)
      fun _ => ofOutcome (evaluateKnown objectText op a b) := by
    intro objectText
    have hcomputed := isComputed_evaluateKnown objectText op a b
    cases houtcome : evaluateKnown objectText op a b with
    | ok v => exact .pure (hcomputed.isPlain houtcome)
    | error e => exact .throw e
  unfold evaluateBinary askText
  cases hspelled : spelled? a b with
  | none => exact hknown ""
  | some o =>
    have ho : p o := objectsIn_of_spelled? ha hb hspelled
    exact (Asking.text ho).bind fun objectText _ => hknown objectText

/-- A literal gives its value, which has the objects of the literal and is not `void`. -/
theorem asking_literal {n : Node} {v : Value} (hn : n.ObjectsIn p) (h : n.literal? = some v) :
    Asking p (fun v => v.ObjectsIn p ∧ v ≠ .void) fun _ => popped (eval n) := by
  simp only [eval_of_literal? h]
  exact .popped ⟨hn.value h, Node.ne_void_of_literal? h⟩

/-- The value may come of the operation on literals: if it is an object, `p` holds of it, and it is
`void` only as the element of an object. -/
def Value.MayComeOf (p : ObjectRef → Prop) (op : Op) (operands : List Node) (v : Value) : Prop :=
  v.ObjectsIn p ∧ (v = .void → ∃ o index, op = .member ∧ operands = [.object o, .int index])

/-- Plain values may come of anything. -/
theorem Value.mayComeOf_of_isPlain {op : Op} {operands : List Node} {v : Value}
    (h : v.isPlain = true) : v.MayComeOf p op operands := by
  refine ⟨Value.objectsIn_of_isPlain h, ?_⟩
  rintro rfl
  cases h

/-- A value whose objects are those that `p` holds of may come of anything, unless it is `void`. -/
theorem Value.mayComeOf_of_ne_void {op : Op} {operands : List Node} {v : Value}
    (h : v.ObjectsIn p ∧ v ≠ .void) : v.MayComeOf p op operands :=
  ⟨h.1, fun hvoid => absurd hvoid h.2⟩

/-- An operation on literals asks nothing but the objects among them. -/
theorem asking_evalValue (op : Op) {operands : List Node}
    (hliterals : operands.all Node.isLiteral = true) (hp : ∀ n ∈ operands, n.ObjectsIn p) :
    Asking p (Value.MayComeOf p op operands)
      fun σ => (evalValue (.apply op operands) : EvalM σ Value) := by
  have hliteral : ∀ n ∈ operands, ∃ v, n.literal? = some v := fun n hn =>
    n.isLiteral_iff.mp (List.all_eq_true.mp hliterals n hn)
  simp only [evalValue]
  by_cases harity : operands.length = op.arity
  · rcases Op.operands_cases harity with ⟨a, rfl⟩ | ⟨a, b, rfl⟩ | ⟨rfl, a, b, c, rfl⟩
    · rcases hliteral a (by simp) with ⟨v, ha⟩
      simp only [eval_unary harity.symm, popped_bind]
      refine (asking_literal (hp a (by simp)) ha).bind fun v _ => ?_
      refine (asking_ofOutcome (evaluateUnary op v)).bind fun w hw => .popped ?_
      exact Value.mayComeOf_of_isPlain ((isComputed_evaluateUnary op v).isPlain hw)
    · rcases hliteral a (by simp) with ⟨v, ha⟩
      rcases hliteral b (by simp) with ⟨w, hb⟩
      by_cases hmember : op = .member
      · subst hmember
        simp only [eval_member, popped_bind, eval_of_literal? ha]
        have hpopped : Asking p (· = v) fun _ => popped (pushValue v) := .popped rfl
        refine hpopped.bind ?_
        rintro v' rfl
        cases v' with
        | object owner =>
          obtain rfl : a = .object owner := Node.eq_object_of_literal? ha
          have howner : p owner := hp _ (by simp) owner (Node.mem_subtrees_self _)
          have hsame : Asking p (· = owner) fun _ => pure owner := .pure rfl
          refine hsame.bind ?_
          rintro owner rfl
          -- A name here would be asked of the host, but a name is no literal.
          cases b with
          | int index =>
            have helement : Asking p (Value.MayComeOf p .member [.object owner, .int index]) _ :=
              (Asking.element howner index).bind fun v hv => .popped ⟨hv, fun _ => ⟨_, _, rfl, rfl⟩⟩
            simpa only [memberOf, listElement, popped_bind, bind_assoc] using helement
          | ident name => cases hb
          | _ => exact .throw _
        | _ => exact Asking.throw _
      · by_cases hassign : op = .assign
        · subst hassign
          have htarget := Node.isTarget_eq_false_of_isLiteral (a.isLiteral_iff.mpr ⟨v, ha⟩)
          simp only [eval_assign_of_not_isTarget htarget]
          exact .throw _
        · simp only [eval_binary harity.symm hmember hassign, popped_bind]
          -- `&&` and `||` may be decided by the left operand alone.
          refine (asking_literal (hp a (by simp)) ha).bind fun v hv => ?_
          cases decided? op v with
          | some b => exact .popped (Value.mayComeOf_of_isPlain rfl)
          | none =>
            simp only [popped_bind]
            refine (asking_literal (hp b (by simp)) hb).bind fun w hw => ?_
            have hcomputed : Asking p (Value.MayComeOf p op [a, b]) _ :=
              (asking_evaluateBinary op hv.1 hw.1).bind fun v hv =>
                .popped (Value.mayComeOf_of_isPlain hv)
            simpa only [bind_assoc] using hcomputed
    · rcases hliteral a (by simp) with ⟨v, ha⟩
      rcases hliteral b (by simp) with ⟨w, hb⟩
      rcases hliteral c (by simp) with ⟨x, hc⟩
      simp only [eval_ternary_of_literal? ha, popped_bind]
      have hchoice : Asking p (fun _ => True) fun _ => popped (pushValue v) := .popped trivial
      refine hchoice.bind fun v _ => ?_
      split
      · exact (asking_literal (hp b (by simp)) hb).mono fun _ => Value.mayComeOf_of_ne_void
      · exact (asking_literal (hp c (by simp)) hc).mono fun _ => Value.mayComeOf_of_ne_void
      · exact .throw _
  · simp only [eval_apply_of_length_ne harity]
    exact .throw _

/-- A value that becomes a literal keeps its objects. -/
theorem Node.objectsIn_of_ofValue? {v : Value} {literal : Node} (h : v.ObjectsIn p)
    (hliteral : Node.ofValue? v = some literal) : literal.ObjectsIn p := by
  intro o hmem
  cases v <;> cases hliteral <;> simp only [Node.subtrees, List.mem_singleton, reduceCtorEq] at hmem
  cases hmem
  exact h o rfl

/-! ## Folding -/

/-- What has no parts stays as it is. -/
theorem fold_leaf {σ : Type} {n : Node} (happly : ∀ op operands, n ≠ .apply op operands)
    (hlist : ∀ element items, n ≠ .list element items)
    (hconstruct : ∀ typeName fields, n ≠ .construct typeName fields) :
    (fold n : EvalM σ Node) = pure n := by
  rw [fold]
  · exact happly
  · exact hlist
  · exact hconstruct

/-- Folding an operation on literals asks the objects among them, and gives no other objects. -/
theorem asking_foldLiteral (op : Op) {operands : List Node}
    (hliterals : operands.all Node.isLiteral = true) (hp : ∀ n ∈ operands, n.ObjectsIn p) :
    Asking p (Node.ObjectsIn p) fun σ => (foldLiteral (.apply op operands) : EvalM σ Node) := by
  refine (asking_evalValue op hliterals hp).restoring.bind fun v hv => .pure ?_
  cases hliteral : Node.ofValue? v with
  | none => exact .of_parts (by simp) (Node.subtrees_apply op operands) hp
  | some literal => exact Node.objectsIn_of_ofValue? hv.1 hliteral

/-- Folding asks nothing but the objects in the tree and their elements. -/
theorem asking_fold (n : Node) : n.ObjectsIn p →
    Asking p (Node.ObjectsIn p) fun σ => (fold n : EvalM σ Node) := by
  induction n using fold.induct
    (motive_2 := fun ns => (∀ n ∈ ns, n.ObjectsIn p) →
      Asking p (fun ns' : List Node => ∀ n ∈ ns', n.ObjectsIn p) fun _ => foldAll ns)
  with
  | case1 op operands ih =>
    intro hp
    simp only [fold]
    refine (ih fun _ => hp.of_mem (Node.subtrees_apply op operands)).bind fun operands' hp' => ?_
    -- Only an operation all of whose operands are literals is evaluated.
    by_cases hliterals : operands'.all Node.isLiteral = true
    · simp only [hliterals, if_true]
      exact asking_foldLiteral op hliterals hp'
    · simp only [hliterals]
      exact .pure (.of_parts (by simp) (Node.subtrees_apply op operands') hp')
  | case2 element items ih =>
    intro hp
    simp only [fold]
    refine (ih fun _ => hp.of_mem (Node.subtrees_list element items)).bind fun items' hp' => ?_
    exact .pure (.of_parts (by simp) (Node.subtrees_list element items') hp')
  | case3 typeName fields ih =>
    intro hp
    simp only [fold]
    refine (ih fun _ => hp.of_mem (Node.subtrees_construct typeName fields)).bind
      fun fields' hp' => ?_
    exact .pure (.of_parts (by simp) (Node.subtrees_construct typeName fields') hp')
  | case4 n happly hlist hconstruct =>
    intro hp
    simp only [fold_leaf happly hlist hconstruct]
    exact .pure hp
  | case5 _ =>
    simp only [foldAll]
    exact .pure (by simp)
  | case6 n ns hn hns hp =>
    rcases List.forall_mem_cons.mp hp with ⟨hp, hps⟩
    simp only [foldAll]
    refine (hn hp).bind fun n' hp' => (hns hps).bind fun ns' hps' => ?_
    exact .pure (List.forall_mem_cons.mpr ⟨hp', hps'⟩)

/-- Folding several expressions asks the objects in them, and gives no other objects. -/
theorem asking_foldAll (ns : List Node) (hp : ∀ n ∈ ns, n.ObjectsIn p) :
    Asking p (fun ns' : List Node => ∀ n ∈ ns', n.ObjectsIn p) fun _ => foldAll ns := by
  induction ns with
  | nil =>
    simp only [foldAll]
    exact .pure (by simp)
  | cons n ns ih =>
    rcases List.forall_mem_cons.mp hp with ⟨hp, hps⟩
    simp only [foldAll]
    refine (asking_fold n hp).bind fun n' hp' => (ih hps).bind fun ns' hps' => ?_
    exact .pure (List.forall_mem_cons.mpr ⟨hp', hps'⟩)

end

/-! ## Whatever the objects answer -/

section

variable {α : Type} {p : ObjectRef → Prop} {post : α → Prop} {act : (σ : Type) → EvalM σ α}

/-- The stack stays as it was, and objects are all that is asked. -/
theorem Asking.asked (h : Asking p post act) (hp : ∀ o, p o) {σ : Type} {scope : Scope σ}
    {m m' : Machine σ} {outcome : Except EvalError α}
    (hrun : (act σ).perform scope m = (outcome, m')) :
    m'.stack = m.stack ∧ scope.objects.Asked m.world m'.world ∧ ∀ a, outcome = .ok a → post a := by
  -- One case for each way to build such an action; it is `restoring` that gives a stack back.
  induction h generalizing m m' with
  | pure hpost =>
    cases hrun
    refine ⟨rfl, .refl, ?_⟩
    rintro _ ⟨⟩
    exact hpost
  | throw e =>
    cases hrun
    exact ⟨rfl, .refl, by simp⟩
  | @bind α β mid post act next _ _ ihact ihnext =>
    rw [perform_bind] at hrun
    rcases hact : (act σ).perform scope m with ⟨e | a, m₁⟩
    · rw [hact] at hrun
      cases hrun
      rcases ihact hact with ⟨hstack, hasked, -⟩
      exact ⟨hstack, hasked, by simp⟩
    · rw [hact] at hrun
      rcases ihact hact with ⟨hstack, hasked, hmid⟩
      rcases ihnext a (hmid a rfl) hrun with ⟨hstack', hasked', hpost⟩
      exact ⟨hstack'.trans hstack, hasked.trans hasked', hpost⟩
  | @restoring α post act _ ih =>
    rw [perform_restoring] at hrun
    rcases hact : (act σ).perform scope m with ⟨e | a, m₁⟩
    · rw [hact] at hrun
      cases hrun
      rcases ih hact with ⟨hstack, hasked, -⟩
      refine ⟨?_, hasked, by simp⟩
      show m₁.stack.resetTo m.stack.mark = m.stack
      rw [hstack, (Stack.Under.refl m.stack).resetTo_mark]
    · rw [hact] at hrun
      cases hrun
      exact ih hact
  | @popped post v hpost =>
    rw [perform_popped_pushValue] at hrun
    cases hroom : m.stack.overflow? v with
    | none =>
      rw [hroom] at hrun
      cases hrun
      refine ⟨rfl, .refl, ?_⟩
      rintro _ ⟨⟩
      exact hpost
    | some e =>
      rw [hroom] at hrun
      cases hrun
      exact ⟨rfl, .refl, by simp⟩
  | @text o _ =>
    cases hrun
    exact ⟨rfl, scope.objects.asked_text o m.world, fun _ _ => trivial⟩
  | @element o _ index =>
    cases hrun
    exact ⟨rfl, scope.objects.asked_element o index m.world, fun _ _ o' _ => hp o'⟩

end

/-! ## With no object to be asked -/

/-- The outcome depends on the stack and on nothing else, it is the same on all stacks with room for
a value, and nothing is changed. -/
def Inert {α : Type} (post : α → Prop) (act : (σ : Type) → EvalM σ α) : Prop :=
  ∃ answer : Stack → Except EvalError α,
    (∀ (σ : Type) (scope : Scope σ) (m : Machine σ),
      (act σ).perform scope m = (answer m.stack, m)) ∧
    (∀ s s' : Stack, s.HasRoom → s'.HasRoom → answer s = answer s') ∧
    ∀ s a, answer s = .ok a → post a

section

variable {α β : Type} {mid : α → Prop} {post : α → Prop} {act : (σ : Type) → EvalM σ α}

/-- Two steps that depend on nobody do not do so together. -/
theorem Inert.bind {post : β → Prop} {next : (σ : Type) → α → EvalM σ β} (hact : Inert mid act)
    (hnext : ∀ a, mid a → Inert post fun σ => next σ a) : Inert post fun σ => act σ >>= next σ := by
  rcases hact with ⟨answer, hact, hroom, hmid⟩
  -- What comes next is of interest only for the results that there can be.
  have hnext' : ∀ a, ∃ answerNext : Stack → Except EvalError β, mid a →
      (∀ (σ : Type) (scope : Scope σ) (m : Machine σ),
        (next σ a).perform scope m = (answerNext m.stack, m)) ∧
      (∀ s s' : Stack, s.HasRoom → s'.HasRoom → answerNext s = answerNext s') ∧
      ∀ s b, answerNext s = .ok b → post b := by
    intro a
    by_cases ha : mid a
    · rcases hnext a ha with ⟨answerNext, h⟩
      exact ⟨answerNext, fun _ => h⟩
    · exact ⟨fun _ => .error .nullReference, fun h => absurd h ha⟩
  choose answerNext hnext' using hnext'
  refine ⟨fun s => answer s >>= fun a => answerNext a s, fun σ scope m => ?_,
    fun s s' hs hs' => ?_, fun s b hb => ?_⟩
  · rw [perform_bind, hact]
    dsimp only
    cases hanswer : answer m.stack with
    | error e => rfl
    | ok a => exact (hnext' a (hmid _ a hanswer)).1 σ scope m
  · dsimp only
    rw [hroom s s' hs hs']
    cases hanswer : answer s' with
    | error e => rfl
    | ok a => exact (hnext' a (hmid _ a hanswer)).2.1 s s' hs hs'
  · rcases bind_eq_ok_iff.mp hb with ⟨a, hanswer, hb⟩
    exact (hnext' a (hmid _ a hanswer)).2.2 s b hb

theorem Inert.restoring (h : Inert post act) : Inert post fun σ => restoring (act σ) := by
  rcases h with ⟨answer, hact, hroom, hpost⟩
  refine ⟨answer, fun σ scope m => ?_, hroom, hpost⟩
  rw [perform_restoring, hact]
  cases answer m.stack with
  | ok a => rfl
  | error e =>
    dsimp only
    rw [(Stack.Under.refl m.stack).resetTo_mark]

theorem Inert.popped {post : Value → Prop} {v : Value} (h : post v) :
    Inert post fun _ => popped (pushValue v) := by
  refine ⟨fun s => match s.overflow? v with
    | none => .ok v
    | some e => .error (.capacity e), fun σ scope m => ?_, fun s s' hs hs' => ?_, fun s a ha => ?_⟩
  · rw [perform_popped_pushValue]
    dsimp only
    cases m.stack.overflow? v with
    | none => rfl
    | some e => rfl
  · dsimp only
    rw [hs.overflow?_eq_none, hs'.overflow?_eq_none]
  · dsimp only at ha
    split at ha
    · cases ha
      exact h
    · cases ha

/-- With no object to be asked, the action depends on the stack alone and changes nothing. -/
theorem Asking.inert {p : ObjectRef → Prop} (h : Asking p post act) (hp : ∀ o, ¬p o) :
    Inert post act := by
  induction h with
  | pure hpost =>
    refine ⟨fun _ => .ok _, fun _ _ _ => rfl, fun _ _ _ _ => rfl, ?_⟩
    rintro _ _ ⟨⟩
    exact hpost
  | throw e => exact ⟨fun _ => .error e, fun _ _ _ => rfl, fun _ _ _ _ => rfl, by simp⟩
  | bind _ _ ihact ihnext => exact ihact.bind ihnext
  | restoring _ ih => exact ih.restoring
  | popped hpost => exact .popped hpost
  | text ho => exact absurd ho (hp _)
  | element ho => exact absurd ho (hp _)

/-- Who asks nobody changes nothing. -/
theorem Inert.unchanged (h : Inert post act) {σ : Type} (scope : Scope σ) (m : Machine σ) :
    ((act σ).perform scope m).2 = m := by
  rcases h with ⟨answer, hact, -⟩
  rw [hact]

theorem Inert.machine_eq (h : Inert post act) {σ : Type} {scope : Scope σ} {m m' : Machine σ}
    {outcome : Except EvalError α} (hrun : (act σ).perform scope m = (outcome, m')) : m' = m :=
  (congrArg Prod.snd hrun).symm.trans (h.unchanged scope m)

end

/-! ## With objects that always answer the same -/

/-- Answers that some objects always give.  Such objects have no others among their elements. -/
structure Standing where
  holds : ObjectRef → Prop
  text : ObjectRef → String
  at? : ObjectRef → Int32 → Option Value
  holds_at? : ∀ {o index v}, holds o → at? o index = some v → v.ObjectsIn holds

/-- Whatever the host is asked from the world `w` on, the objects give these answers, and giving
them changes nothing. -/
structure Scope.Upholds {σ : Type} (scope : Scope σ) (k : Standing) (w : World σ) : Prop where
  text : ∀ o, k.holds o → ∀ w', scope.Reaches w w' →
    (scope.objects.text o).run w' = (k.text o, w')
  at? : ∀ o, k.holds o → o.isIndexed = true → ∀ w', scope.Reaches w w' → ∀ index,
    (scope.objects.at? o index).run w' = (k.at? o index, w')

/-- Answers that stand are still standing after anything that the host has done. -/
theorem Scope.Upholds.of_reaches {σ : Type} {scope : Scope σ} {k : Standing} {w w' : World σ}
    (h : scope.Upholds k w) (hreaches : scope.Reaches w w') : scope.Upholds k w' where
  text o ho w'' hw'' := h.text o ho w'' (hreaches.trans hw'')
  at? o ho hindexed w'' hw'' := h.at? o ho hindexed w'' (hreaches.trans hw'')

/-- With no objects in mind, every host answers as it always does. -/
def Standing.none : Standing where
  holds _ := False
  text _ := ""
  at? _ _ := .none
  holds_at? := by
    rintro o index v ⟨⟩

/-- Of no objects, nothing is asked. -/
theorem Scope.upholds_none {σ : Type} (scope : Scope σ) (w : World σ) :
    scope.Upholds .none w where
  text := by
    rintro o ⟨⟩
  at? := by
    rintro o ⟨⟩

/-- Writing down the calls does not change what the objects answer. -/
theorem Scope.Upholds.recorded {σ : Type} {scope : Scope σ} {k : Standing}
    {w : World (σ × List HostCall)} (h : scope.Upholds k w.unrecorded) :
    scope.recorded.Upholds k w where
  text o ho w' hw' := by
    show (scope.objects.recorded.text o).run w' = (k.text o, w')
    rw [asksAlike_text scope.objects o w', h.text o ho _ (reaches_of_recorded hw')]
    rfl
  at? o ho hindexed w' hw' index := by
    show (scope.objects.recorded.at? o index).run w' = (k.at? o index, w')
    rw [asksAlike_at? scope.objects o index w', h.at? o ho hindexed _ (reaches_of_recorded hw')]
    rfl

/-- A step that succeeds has nothing to give back. -/
theorem perform_of_restoring_ok {σ α : Type} {act : EvalM σ α} {scope : Scope σ} {m m' : Machine σ}
    {a : α} (h : (restoring act).perform scope m = (.ok a, m')) :
    act.perform scope m = (.ok a, m') := by
  rw [perform_restoring] at h
  rcases hact : act.perform scope m with ⟨e | a', m''⟩
  · rw [hact] at h
    cases h
  · rw [hact] at h
    exact h

/-- A result of the action is its result whenever and wherever the objects answer the same. -/
theorem Asking.run_eq {α : Type} {k : Standing} {post : α → Prop} {act : (σ : Type) → EvalM σ α}
    (h : Asking k.holds post act) {σ : Type} {scope : Scope σ} {m m' : Machine σ} {a : α}
    (hupholds : scope.Upholds k m.world) (hrun : (act σ).perform scope m = (.ok a, m')) :
    m' = m ∧ post a ∧ ∀ {τ : Type} (scope' : Scope τ) (w : World τ), scope'.Upholds k w →
      (act τ).perform scope' ⟨m.stack, w⟩ = (.ok a, ⟨m.stack, w⟩) := by
  induction h generalizing m m' with
  | pure hpost =>
    cases hrun
    exact ⟨rfl, hpost, fun _ _ _ => rfl⟩
  | throw e => cases hrun
  | @bind α β mid post act next _ _ ihact ihnext =>
    rcases perform_bind_ok scope hrun with ⟨b, m₁, hact, hnext⟩
    rcases ihact hupholds hact with ⟨rfl, hmid, hanywhere⟩
    rcases ihnext b hmid hupholds hnext with ⟨rfl, hpost, hanywhere'⟩
    refine ⟨rfl, hpost, fun scope' w hw => ?_⟩
    rw [perform_bind, hanywhere scope' w hw]
    exact hanywhere' scope' w hw
  | @restoring α post act _ ih =>
    rcases ih hupholds (perform_of_restoring_ok hrun) with ⟨rfl, hpost, hanywhere⟩
    refine ⟨rfl, hpost, fun scope' w hw => ?_⟩
    rw [perform_restoring, hanywhere scope' w hw]
  | @popped post v hpost =>
    rw [perform_popped_pushValue] at hrun
    cases hroom : m.stack.overflow? v with
    | some e =>
      rw [hroom] at hrun
      cases hrun
    | none =>
      rw [hroom] at hrun
      cases hrun
      refine ⟨rfl, hpost, fun scope' w _ => ?_⟩
      rw [perform_popped_pushValue, hroom]
  | @text o ho =>
    have hperform : ∀ {τ : Type} (scope' : Scope τ) (w : World τ), scope'.Upholds k w →
        (do onWorld ((← objects).text o) : EvalM τ String).perform scope' ⟨m.stack, w⟩
          = (.ok (k.text o), ⟨m.stack, w⟩) := by
      intro τ scope' w hw
      have htext := hw.text o ho w .refl
      show (onWorld (scope'.objects.text o)).perform scope' ⟨m.stack, w⟩ = _
      rw [perform_onWorld, htext]
    rw [hperform scope m.world hupholds] at hrun
    cases hrun
    exact ⟨rfl, trivial, hperform⟩
  | @element o ho index =>
    have hperform : ∀ {τ : Type} (scope' : Scope τ) (w : World τ),
        (do onWorldExcept ((← objects).element o index) : EvalM τ Value).perform scope' ⟨m.stack, w⟩
          = (((scope'.objects.element o index).run w).1,
            ⟨m.stack, ((scope'.objects.element o index).run w).2⟩) := fun _ _ => rfl
    by_cases hindexed : o.isIndexed = true
    · have hat := hupholds.at? o ho hindexed m.world .refl index
      cases helement : k.at? o index with
      | none =>
        -- There is no element here, and so there is no result.
        rw [hperform scope m.world, Objects.run_element, if_pos hindexed, hat, helement] at hrun
        cases hrun
      | some v =>
        rw [hperform scope m.world, Objects.run_element, if_pos hindexed, hat, helement] at hrun
        cases hrun
        refine ⟨rfl, k.holds_at? ho helement, fun scope' w hw => ?_⟩
        rw [hperform, Objects.run_element, if_pos hindexed, hw.at? o ho hindexed w .refl index,
          helement]
    · rw [hperform scope m.world, Objects.run_element, if_neg hindexed] at hrun
      cases hrun
      have hvoid : Value.void.ObjectsIn k.holds := by
        rintro o' ⟨⟩
      refine ⟨rfl, hvoid, fun scope' w _ => ?_⟩
      rw [hperform, Objects.run_element, if_neg hindexed]

end Edict
