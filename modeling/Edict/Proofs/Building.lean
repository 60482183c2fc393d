import Edict.Interpreter
import Edict.Proofs.Asking
import Edict.Proofs.Parsed

namespace Edict

/-! # Building instructions

No text is read as a tree with an object in it, so that folding asks the host for nothing, and where
there is room for a value, nothing that it evaluates runs out of room.  The instruction that a text
writes depends on the text, on the names that the interpreter knows and on whether it folds at all.
The context that it is built against has no part in it and stays as it was.

Main statements:

* `steady_foldAll`: folding expressions without objects has one and the same outcome in all contexts;
* `steady_build`: so has building an instruction.
-/

open EvalM

namespace CallM

variable {σ τ α β : Type}

/-- Wherever there is room for a value, the step has one and the same outcome and changes
nothing. -/
def Steady (act : CallM σ τ α) : Prop :=
  ∃ outcome : Except Error α, ∀ r : Runtime σ τ, r.context.stack.HasRoom →
    act.run r = (outcome, r)

theorem Steady.pure (a : α) : Steady (pure a : CallM σ τ α) :=
  ⟨.ok a, fun _ _ => rfl⟩

/-- Two steps whose outcome depends on nothing, and that change nothing, are one such step. -/
theorem Steady.bind {act : CallM σ τ α} {next : α → CallM σ τ β} (hact : Steady act)
    (hnext : ∀ a, Steady (next a)) : Steady (act >>= next) := by
  rcases hact with ⟨outcome, hact⟩
  cases outcome with
  | error e =>
    refine ⟨.error e, ?_⟩
    intro r hroom
    rw [run_bind, hact r hroom]
  | ok a =>
    rcases hnext a with ⟨outcome, hnext⟩
    refine ⟨outcome, ?_⟩
    intro r hroom
    rw [run_bind, hact r hroom]
    exact hnext r hroom

/-- What comes behind an outcome is of interest for that outcome only. -/
theorem Steady.ofOutcome_bind {outcome : Except Error α} {next : α → CallM σ τ β}
    (h : ∀ a, outcome = .ok a → Steady (next a)) : Steady (ofOutcome outcome >>= next) := by
  cases outcome with
  | error e => exact ⟨.error e, fun _ _ => rfl⟩
  | ok a => exact h a rfl

/-- The outcome in one context tells that in all of them. -/
theorem Steady.run_eq {act : CallM σ τ α} (h : Steady act) {r r₁ : Runtime σ τ}
    {outcome : Except Error α} (hroom : r.context.stack.HasRoom)
    (hrun : act.run r = (outcome, r₁)) :
    r₁ = r ∧ ∀ r' : Runtime σ τ, r'.context.stack.HasRoom → act.run r' = (outcome, r') := by
  rcases h with ⟨outcome', hact⟩
  rw [hact r hroom] at hrun
  cases hrun
  exact ⟨rfl, hact⟩

end CallM

/-! ## Folding -/

variable {σ τ : Type}

/-- The outcome on one stack with room is the outcome on all of them. -/
theorem steady_evaluate_of_inert {α : Type} {post : α → Prop} {act : (σ : Type) → EvalM σ α}
    (h : Inert post act) : CallM.Steady (CallM.evaluate (act σ) : CallM σ τ α) := by
  rcases h with ⟨answer, hact, hroom, -⟩
  refine ⟨(answer (.ofSize ⟨4, 1⟩)).mapError .eval, fun r hr => ?_⟩
  rw [← hroom _ _ hr Stack.hasRoom_ofSize]
  exact CallM.run_evaluate (hact σ r.context.evaluator.scope r.context.evaluator.machine)

/-- Expressions without objects are folded alike everywhere. -/
theorem steady_foldAll {ns : List Node} (h : ∀ n ∈ ns, n.ObjectFree) :
    CallM.Steady (CallM.evaluate (foldAll ns) : CallM σ τ (List Node)) :=
  steady_evaluate_of_inert ((asking_foldAll ns h).inert fun _ => not_false)

/-! ## Instructions -/

/-- So is an instruction whose arguments have no objects. -/
theorem steady_optimize {instruction : Instruction σ τ}
    (h : ∀ n ∈ instruction.parameters, n.ObjectFree) : CallM.Steady instruction.optimize := by
  unfold Instruction.optimize
  split
  · exact .pure _
  · exact (steady_foldAll h).bind fun _ => .pure _

theorem steady_finish (i : Interpreter σ τ) (source : String) (f : Function σ τ)
    {parameters : List Node} (h : ∀ n ∈ parameters, n.ObjectFree)
    (modifiers : List (Modifier σ τ)) :
    CallM.Steady (i.finish source f parameters modifiers) := by
  unfold Interpreter.finish
  split
  · exact steady_optimize h
  · exact .pure _

/-- What comes of building a text is the same in all contexts with room for a value, and none of
them is changed. -/
theorem steady_build (i : Interpreter σ τ) (text : String) : CallM.Steady (i.build text) := by
  refine .ofOutcome_bind fun ⟨f, parsed, modifiers⟩ hparts => ?_
  -- The arguments are read from the text, and so there are no objects in them.
  rcases bind_eq_ok_iff.mp hparts with ⟨tokens, htokens, hparts⟩
  rcases bind_eq_ok_iff.mp hparts with ⟨parsed', hparsed, hparts⟩
  rcases bind_eq_ok_iff.mp hparts with ⟨f', -, hparts⟩
  rcases bind_eq_ok_iff.mp hparts with ⟨modifiers', -, hparts⟩
  cases hparts
  refine steady_finish i text f (fun n hn => Parsed.objectFree ?_) modifiers
  exact parsed_of_parseInstruction (mapError_eq_ok_iff.mp htokens) (mapError_eq_ok_iff.mp hparsed)
    n hn

/-! ## What an instruction tells of its text -/

/-- Folding does not change the text that an instruction was built from. -/
theorem source_of_optimize {instruction optimized : Instruction σ τ} {r r' : Runtime σ τ}
    (h : instruction.optimize.run r = (.ok optimized, r')) :
    optimized.source = instruction.source := by
  unfold Instruction.optimize at h
  split at h
  · cases h
    rfl
  · rcases run_bind_ok h with ⟨folded, r'', -, hrest⟩
    cases hrest
    rfl

theorem source_of_finish {i : Interpreter σ τ} {source : String} {f : Function σ τ}
    {parameters : List Node} {modifiers : List (Modifier σ τ)} {instruction : Instruction σ τ}
    {r r' : Runtime σ τ}
    (h : (i.finish source f parameters modifiers).run r = (.ok instruction, r')) :
    instruction.source = source := by
  unfold Interpreter.finish at h
  dsimp only at h
  split at h
  · exact source_of_optimize h
  · cases h
    rfl

/-- An instruction that was built from a text names this text as its source. -/
theorem source_of_build {i : Interpreter σ τ} {text : String} {instruction : Instruction σ τ}
    {r r' : Runtime σ τ} (h : (i.build text).run r = (.ok instruction, r')) :
    instruction.source = text := by
  rcases run_bind_ok h with ⟨⟨f, parsed, modifiers⟩, r'', -, hfinish⟩
  exact source_of_finish hfinish

end Edict
