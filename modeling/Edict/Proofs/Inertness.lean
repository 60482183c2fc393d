import Edict.Proofs.Building

namespace Edict

/-! # Folding touches nothing but its tree

Folding gets as far as no name, no member of a name and no new object.  All that it may ask for is the
string form and the elements of the objects that stand in the tree, and what asking them makes of the
world is all that it changes: the stack is afterwards what it was before, be there a result or an
error.  A tree without objects is folded without asking anybody.

Main statements:

* `foldCalls_eq_nil`: the host is not called;
* `asked_fold`: the stack stays, and nothing but objects is asked;
* `inert_fold`: without objects, the outcome depends on the stack alone and nothing is changed;
* `fold_touches_nothing`: all of these, and what they mean for an instruction.
-/

open EvalM

/-! ## Calls to the host -/

namespace EvalM

variable {σ α : Type} {scope : Scope σ}

/-- Giving the stack back is not recorded. -/
theorem Records.restoring {act' : EvalM (σ × List HostCall) α} {act : EvalM σ α}
    (h : Records scope act' act) : Records scope (restoring act') (restoring act) := by
  refine ⟨fun m => ?_⟩
  rw [perform_restoring, perform_restoring, h.perform_eq]
  rcases act'.perform scope.recorded m with ⟨e | a, m'⟩
  · rfl
  · rfl

end EvalM

section

variable {σ : Type} {scope : Scope σ}

/-- Writing the calls down changes nothing for an action that asks nothing but objects. -/
theorem Asking.records {α : Type} {p : ObjectRef → Prop} {post : α → Prop}
    {act : (σ : Type) → EvalM σ α} (h : Asking p post act) (hp : ∀ o, p o) :
    Records scope (act (σ × List HostCall)) (act σ) := by
  induction h with
  | pure _ => exact .pure _
  | throw e => exact .throw e
  | @bind α β mid post act next hact _ ihact ihnext =>
    -- What comes next is of interest only for the results that there can be.
    refine ⟨fun m => ?_⟩
    rw [perform_bind, perform_bind, ihact.perform_eq]
    rcases hrun : (act (σ × List HostCall)).perform scope.recorded m with ⟨e | a, m'⟩
    · rfl
    · rcases hact.asked hp hrun with ⟨-, -, hmid⟩
      exact (ihnext a (hmid a rfl)).perform_eq m'
  | restoring _ ih => exact ih.restoring
  | popped _ => exact records_popped (records_pushValue _)
  | @text o _ => exact Records.objects (.onWorld (asksAlike_text scope.objects o).unrecorded)
  | @element o _ index =>
    exact Records.objects (.onWorldExcept (asksAlike_element scope.objects o index).unrecorded)

/-- The calls that folding the expression makes, in their order.  By `records_fold` they are written
down without a trace in the outcome. -/
def Node.foldCalls (n : Node) (scope : Scope σ) (m : Machine σ) : List HostCall :=
  ((fold n).perform scope.recorded m.recorded).2.world.state.2

/-- Writing the calls down changes nothing about folding. -/
theorem records_fold (scope : Scope σ) (n : Node) : Records scope (fold n) (fold n) :=
  (asking_fold n fun _ _ => trivial).records fun _ => trivial

/-- To ask an object for its string form or an element is no call. -/
theorem calls_of_asked {w w' : World (σ × List HostCall)}
    (h : scope.recorded.objects.Asked w w') : w'.state.2 = w.state.2 := by
  induction h with
  | refl => rfl
  | tail _ hask ih => cases hask <;> exact (List.append_nil _).trans ih

/-- The stack stays as it was, and nothing but objects is asked. -/
theorem asked_fold {n : Node} {m m' : Machine σ} {outcome : Except EvalError Node}
    (hfold : (fold n).perform scope m = (outcome, m')) :
    m'.stack = m.stack ∧ scope.objects.Asked m.world m'.world := by
  have hasking := asking_fold (p := fun _ => True) n fun _ _ => trivial
  rcases hasking.asked (fun _ => trivial) hfold with ⟨hstack, hasked, -⟩
  exact ⟨hstack, hasked⟩

/-- Folding makes no call to the host. -/
theorem foldCalls_eq_nil (n : Node) (scope : Scope σ) (m : Machine σ) :
    n.foldCalls scope m = [] := by
  rcases hfold : (fold n).perform scope.recorded m.recorded with ⟨outcome, m'⟩
  rw [Node.foldCalls, hfold]
  exact calls_of_asked (asked_fold hfold).2

/-- Objects that change nothing by answering leave the world as it is, however often they are
asked. -/
theorem Objects.Asked.eq_of_quiet {host : Objects σ} {w w' : World σ}
    (hquiet : ∀ w w', host.Asks w w' → w' = w) (h : host.Asked w w') : w' = w := by
  induction h with
  | refl => rfl
  | tail _ hask ih => exact (hquiet _ _ hask).trans ih

end

/-! ## Trees without objects -/

/-- Without objects, what comes of folding depends on the stack alone, folding changes nothing, and no
object gets into the tree. -/
theorem inert_fold {n : Node} (hfree : n.ObjectFree) :
    Inert Node.ObjectFree fun σ => (fold n : EvalM σ Node) :=
  (asking_fold n hfree).inert fun _ => not_false

theorem Node.ObjectFree.isPlain {n : Node} {v : Value} (h : n.ObjectFree)
    (hliteral : n.literal? = some v) : v.isPlain = true := by
  cases n with
  | object object => exact (h object (Node.mem_subtrees_self _)).elim
  | _ =>
    cases hliteral
    try rfl

/-! ## Several expressions -/

/-- The expressions are folded from left to right, each on the machine that the one before it
leaves. -/
inductive FoldsInOrder {σ : Type} (scope : Scope σ) :
    Machine σ → List Node → List Node → Machine σ → Prop
  | nil {m : Machine σ} : FoldsInOrder scope m [] [] m
  | cons {m m₁ m' : Machine σ} {n n' : Node} {ns ns' : List Node}
    (hfirst : (fold n).perform scope m = (.ok n', m₁)) (hrest : FoldsInOrder scope m₁ ns ns' m') :
    FoldsInOrder scope m (n :: ns) (n' :: ns') m'

section

variable {σ : Type} {scope : Scope σ}

/-- Folding expressions gives what folding each of them gives, or else the error of the first that
cannot be folded. -/
theorem foldAll_cases (scope : Scope σ) (m : Machine σ) (ns : List Node) :
    (∃ ns' m', FoldsInOrder scope m ns ns' m' ∧
        (foldAll ns).perform scope m = (.ok ns', m')) ∨
      ∃ before before' n after e m₁ m', ns = before ++ n :: after ∧
        FoldsInOrder scope m before before' m₁ ∧ (fold n).perform scope m₁ = (.error e, m') ∧
        (foldAll ns).perform scope m = (.error e, m') := by
  induction ns generalizing m with
  | nil => exact .inl ⟨[], m, .nil, by rw [foldAll]; rfl⟩
  | cons n ns ih =>
    rcases hn : (fold n).perform scope m with ⟨e | n', m₁⟩
    · refine .inr ⟨[], [], n, ns, e, m, m₁, rfl, .nil, hn, ?_⟩
      rw [foldAll, perform_bind, hn]
    · rcases ih m₁ with ⟨ns', m', hall, hns⟩ |
          ⟨before, before', k, after, e, m₂, m', rfl, hbefore, hk, hns⟩
      · refine .inl ⟨n' :: ns', m', .cons hn hall, ?_⟩
        rw [foldAll, perform_bind, hn]
        dsimp only
        rw [perform_bind, hns]
        rfl
      · refine .inr ⟨n :: before, n' :: before', k, after, e, m₂, m', rfl, .cons hn hbefore, hk, ?_⟩
        rw [foldAll, perform_bind, hn]
        dsimp only
        rw [perform_bind, hns]

/-- Folding several expressions leaves the stack as it was, and asks nothing but objects. -/
theorem asked_foldAll {ns : List Node} {m m' : Machine σ} {outcome : Except EvalError (List Node)}
    (hfold : (foldAll ns).perform scope m = (outcome, m')) :
    m'.stack = m.stack ∧ scope.objects.Asked m.world m'.world := by
  have hasking := asking_foldAll (p := fun _ => True) ns fun _ _ _ _ => trivial
  rcases hasking.asked (fun _ => trivial) hfold with ⟨hstack, hasked, -⟩
  exact ⟨hstack, hasked⟩

end

/-! ## Instructions -/

namespace Instruction

variable {σ τ : Type}

/-- What an instruction has become after it was to fold its argument expressions: the instruction
that `optimize` results in, or what it was if there is none. -/
def afterOptimize (i : Instruction σ τ) (r : Runtime σ τ) : Instruction σ τ :=
  match (i.optimize.run r).1 with
  | .ok i' => i'
  | .error _ => i

theorem afterOptimize_of_ok {i i' : Instruction σ τ} {r r' : Runtime σ τ}
    (h : i.optimize.run r = (.ok i', r')) : i.afterOptimize r = i' := by
  rw [afterOptimize, h]

/-- An instruction that cannot be folded stays as it was. -/
theorem afterOptimize_of_error {i : Instruction σ τ} {r r' : Runtime σ τ} {e : Error}
    (h : i.optimize.run r = (.error e, r')) : i.afterOptimize r = i := by
  rw [afterOptimize, h]

/-- An instruction is folded once. -/
theorem optimize_of_optimized {i : Instruction σ τ} (h : i.optimized = true) (r : Runtime σ τ) :
    i.optimize.run r = (.ok i, r) := by
  rw [optimize, if_pos h]
  rfl

/-- Folding an instruction is folding its arguments. -/
theorem run_optimize {i : Instruction σ τ} (h : i.optimized = false) {r : Runtime σ τ}
    {outcome : Except EvalError (List Node)} {m' : Machine σ}
    (hfold : (foldAll i.parameters).perform r.context.evaluator.scope r.context.evaluator.machine
      = (outcome, m')) :
    i.optimize.run r
      = ((outcome.map fun parameters => { i with parameters, optimized := true }).mapError .eval,
        { r with context.evaluator.machine := m' }) := by
  rw [optimize, if_neg (by simp [h]), run_bind, CallM.run_evaluate hfold]
  cases outcome with
  | error e => rfl
  | ok parameters => rfl

end Instruction

/-- Folding an expression, be there a result or an error, leaves the stack as it was and makes no call
to the host; of the world it makes what asking objects makes of it, and nothing if they change nothing
by answering.  A tree without objects asks none and gets none, and the outcome is the same in all
evaluators with room for a value.

So an instruction has either all of its argument expressions replaced by what they are folded to, one
after the other, or it stays what it was and the error is that of the first of them that cannot be
folded. -/
theorem fold_touches_nothing :
    (∀ (n : Node) {σ : Type} (scope : Scope σ) (m : Machine σ),
      ((fold n).perform scope m).2.stack = m.stack ∧ n.foldCalls scope m = [] ∧
      scope.objects.Asked m.world ((fold n).perform scope m).2.world ∧
      ((∀ w w', scope.objects.Asks w w' → w' = w) → ((fold n).perform scope m).2 = m)) ∧
    (∀ n : Node, n.ObjectFree →
      (∀ {σ : Type} (scope : Scope σ) (m : Machine σ), ((fold n).perform scope m).2 = m ∧
        ∀ n', ((fold n).perform scope m).1 = .ok n' → n'.ObjectFree) ∧
      ∀ {σ τ : Type} (scope : Scope σ) (scope' : Scope τ) (m : Machine σ) (m' : Machine τ),
        m.stack.HasRoom → m'.stack.HasRoom →
          ((fold n).perform scope m).1 = ((fold n).perform scope' m').1) ∧
    ∀ {σ τ : Type} (i : Instruction σ τ) (r : Runtime σ τ),
      let scope := r.context.evaluator.scope
      let m := r.context.evaluator.machine
      ∃ m', (i.optimize.run r).2 = { r with context.evaluator.machine := m' } ∧
        m'.stack = m.stack ∧ scope.objects.Asked m.world m'.world ∧
        ((∀ n ∈ i.parameters, n.ObjectFree) → m' = m) ∧
        ((i.optimized = true ∧ i.optimize.run r = (.ok i, r) ∧ i.afterOptimize r = i) ∨
          (i.optimized = false ∧ ∃ parameters', FoldsInOrder scope m i.parameters parameters' m' ∧
            i.afterOptimize r = { i with parameters := parameters', optimized := true } ∧
            (i.optimize.run r).1 = .ok (i.afterOptimize r)) ∨
          (i.optimized = false ∧ ∃ before before' n after e m₁,
            i.parameters = before ++ n :: after ∧ FoldsInOrder scope m before before' m₁ ∧
            (fold n).perform scope m₁ = (.error e, m') ∧
            (i.optimize.run r).1 = .error (.eval e) ∧ i.afterOptimize r = i)) := by
  refine ⟨fun n σ scope m => ?_, fun n hfree => ⟨fun scope m => ?_, ?_⟩, fun i r => ?_⟩
  · rcases hfold : (fold n).perform scope m with ⟨outcome, m'⟩
    rcases asked_fold hfold with ⟨hstack, hasked⟩
    refine ⟨hstack, foldCalls_eq_nil n scope m, hasked, fun hquiet => ?_⟩
    rcases m' with ⟨s', w'⟩
    obtain rfl : s' = m.stack := hstack
    obtain rfl : w' = m.world := hasked.eq_of_quiet hquiet
    rfl
  · refine ⟨(inert_fold hfree).unchanged scope m, fun n' hfold => ?_⟩
    rcases inert_fold hfree with ⟨answer, hanswer, -, hpost⟩
    rw [hanswer] at hfold
    exact hpost _ _ hfold
  · intro σ τ scope scope' m m' hroom hroom'
    rcases inert_fold hfree with ⟨answer, hanswer, hsame, -⟩
    rw [hanswer, hanswer]
    exact hsame _ _ hroom hroom'
  · intro scope m
    cases hoptimized : i.optimized with
    | true =>
      have hrun := Instruction.optimize_of_optimized hoptimized r
      refine ⟨m, by rw [hrun], rfl, .refl, fun _ => rfl, .inl ⟨rfl, hrun, ?_⟩⟩
      exact Instruction.afterOptimize_of_ok hrun
    | false =>
      rcases hfold : (foldAll i.parameters).perform scope m with ⟨outcome, m'⟩
      have hrun := Instruction.run_optimize hoptimized hfold
      rcases asked_foldAll hfold with ⟨hstack, hasked⟩
      refine ⟨m', by rw [hrun], hstack, hasked, fun hfree => ?_, .inr ?_⟩
      · exact ((asking_foldAll i.parameters hfree).inert fun _ => not_false).machine_eq hfold
      · -- Either all arguments are folded, or there is a first one that cannot be.
        rcases foldAll_cases scope m i.parameters with ⟨parameters', m₁, hall, hfold'⟩ |
            ⟨before, before', n, after, e, m₁, m₂, hparameters, hbefore, hn, hfold'⟩
        · rw [hfold] at hfold'
          cases hfold'
          have hafter := Instruction.afterOptimize_of_ok hrun
          exact .inl ⟨rfl, parameters', hall, hafter, by rw [hafter, hrun]; rfl⟩
        · rw [hfold] at hfold'
          cases hfold'
          exact .inr ⟨rfl, before, before', n, after, e, m₁, hparameters, hbefore, hn,
            by rw [hrun]; rfl, Instruction.afterOptimize_of_error hrun⟩

/-- A host that gives no name a meaning. -/
def Scope.blank {σ : Type} : Scope σ := ⟨{}, [], .empty⟩

/-- An empty stack with room for one value. -/
def Machine.narrow : Machine Unit := ⟨.ofSize ⟨4, 1⟩, ⟨(), 0⟩⟩

/-- A host that gives every name the value 1. -/
def Scope.ones : Scope Nat :=
  { Scope.blank with selectors := [(⟨0⟩, .readOnly fun _ _ => pure (some (.int 1)))] }

/-- A stack with a string on it, and room for one value more. -/
def Machine.begun : Machine Nat := ⟨⟨8, 2, [0, 0, 0, 0], [.str "below"]⟩, ⟨7, 0⟩⟩

/-- `x + (1 + 2)` is folded to `x + 3` where `x` has a value and where it has none, and of the
instruction with the arguments `1 + 1`, `1 / 0` and `x` nothing is folded. -/
theorem fold_touches_nothing_unknown_name :
    let n : Node := .apply .add [.ident "x", .apply .add [.int 1, .int 2]]
    let i : Instruction Unit Unit := ⟨"", .evaluator,
      [.apply .add [.int 1, .int 1], .apply .div [.int 1, .int 0], .ident "x"], [], false⟩
    let r : Runtime Unit Unit := ⟨⟨⟨.blank, 0, .empty, .narrow⟩, ()⟩, .silent⟩
    n.ObjectFree ∧ Machine.narrow.stack.HasRoom ∧ Machine.begun.stack.HasRoom ∧
      ((fold n).perform .ones .begun).1 = .ok (.apply .add [.ident "x", .int 3]) ∧
      ((fold n).perform .blank .narrow).1 = ((fold n).perform .ones .begun).1 ∧
      n.foldCalls .ones .begun = [] ∧ i.afterOptimize r = i := by
  intro n i r
  have hfree : n.ObjectFree := by
    intro v hmem
    simp [n, Node.subtrees, Node.allSubtrees] at hmem
  have hroom : Machine.narrow.stack.HasRoom := Stack.hasRoom_ofSize
  have hroom' : Machine.begun.stack.HasRoom := by constructor <;> decide
  have hfolded : ((fold n).perform .ones .begun).1 = .ok (.apply .add [.ident "x", .int 3]) := rfl
  rcases fold_touches_nothing with ⟨huntouched, hsame, hinstruction⟩
  refine ⟨hfree, hroom, hroom', hfolded, (hsame n hfree).2 .blank .ones .narrow .begun hroom hroom',
    (huntouched n .ones .begun).2.1, ?_⟩
  rcases hinstruction i r with ⟨m', -, -, -, -, ⟨hoptimized, -⟩ | ⟨-, parameters', hall, -⟩ |
      ⟨-, before, before', k, after, e, m₁, -, -, -, -, hafter⟩⟩
  · cases hoptimized
  · rcases hall with _ | ⟨hsum, _ | ⟨hquotient, -⟩⟩
    have hsum' : (fold (.apply .add [.int 1, .int 1])).perform .blank .narrow
        = (.ok (.int 2), .narrow) := rfl
    have hquotient' : (fold (.apply .div [.int 1, .int 0])).perform .blank .narrow
        = (.error .divisionByZero, .narrow) := rfl
    cases hsum'.symm.trans hsum
    cases hquotient'.symm.trans hquotient
  · exact hafter

end Edict
