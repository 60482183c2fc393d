import Edict.Proofs.Atomicity
import Edict.Proofs.Caching
import Edict.Proofs.Cutting
import Edict.Proofs.Slots

namespace Edict

/-! # Evaluation with and without an instruction

The value of an expression can be had by an instruction, `Evaluate: …`, or directly.  The first way
reads a longer text with another routine, keeps the instruction, writes to the journal and drops
what a failure leaves before the result is popped; the second way reads the expression alone, and
drops what a failure leaves after that.  If instructions are not folded, both do the same to the
evaluator.

Main statements:

* `parseInstruction_evaluate`: the text of the instruction has the expression as its one argument;
* `Interpreter.Unfolding.run`: an interpreter that does not fold keeps what it would build;
* `executeAs_eq_evaluateExpression`: both ways have the same outcome and leave the same evaluator.
-/

open Lexer Edict.Parser

/-! ## The text of the instruction -/

/-- The text of an instruction that evaluates an expression. -/
def evaluateText (text : String) : String := "Evaluate: " ++ text

/-- The tokens behind `Evaluate: ` are those of the expression but for their places. -/
theorem tokenize_evaluateText {text : String} {tokens : List Token}
    (h : tokenize text = .ok tokens) :
    ∃ name colon tokens', tokenize (evaluateText text) = .ok (name :: colon :: tokens') ∧
      name.bare = ⟨.identifier, some "Evaluate", .origin⟩ ∧ colon.bare = ⟨.colon, none, .origin⟩ ∧
      tokens'.map Token.bare = tokens.map Token.bare := by
  have htext : Cut readLexeme text.toList (tokens.map Token.bare) :=
    cut_toList_iff.mpr ⟨tokens, h, rfl⟩
  have hfront : ReadsWord readLexeme "Evaluate".toList ⟨.identifier, some "Evaluate", .origin⟩
      (':' :: ' ' :: text.toList) :=
    ⟨'E', "valuate".toList, rfl, rfl, rfl, rfl⟩
  have hnext : ReadsWord readLexeme [':'] ⟨.colon, none, .origin⟩ (' ' :: text.toList) :=
    ⟨':', [], rfl, rfl, rfl, rfl⟩
  have hcut := hfront.cut (hnext.cut (.separator rfl htext))
  have hchars : (evaluateText text).toList = "Evaluate".toList ++ ':' :: ' ' :: text.toList := by
    rw [evaluateText, String.toList_append]
    rfl
  rw [← hchars] at hcut
  rcases cut_toList_iff.mp hcut with ⟨all, htokens, hall⟩
  rcases List.map_eq_cons_iff.mp hall with ⟨name, behind, rfl, hname, hbehind⟩
  rcases List.map_eq_cons_iff.mp hbehind with ⟨colon, tokens', rfl, hcolon, hsame⟩
  exact ⟨name, colon, tokens', htokens, hname, hcolon, hsame⟩

/-- An instruction has the expressions behind its colon as arguments. -/
theorem parseInstruction_of_parseParameters {name colon : Token} {tokens : List Token}
    {nodes : List Node} (hname : name.kind = .identifier) (hcolon : colon.kind = .colon)
    (h : parseParameters tokens = .ok (nodes, [])) :
    parseInstruction (name :: colon :: tokens) = .ok ⟨name.text, name.span, nodes, []⟩ := by
  simp only [parseInstruction, hname, hcolon, if_true, h]
  rfl

/-- The text of the instruction has the expression as its one argument. -/
theorem parseInstruction_evaluate {text : String} {tokens : List Token} {n : Node}
    (htokens : tokenize text = .ok tokens) (hparse : parseSingleExpression tokens = .ok n) :
    ∃ tokens' span, tokenize (evaluateText text) = .ok tokens' ∧
      parseInstruction tokens' = .ok ⟨"Evaluate", span, [n], []⟩ := by
  rcases tokenize_evaluateText htokens with ⟨name, colon, tokens', htokens', hname, hcolon, hsame⟩
  have hkind : name.kind = .identifier := congrArg Token.kind hname
  have htext : name.text = "Evaluate" := congrArg Token.text hname
  have hlist := parseParameters_congr hsame (parseSingleExpression_eq_ok_iff.mp hparse)
  have hcolon' : colon.kind = .colon := congrArg Token.kind hcolon
  have hread := parseInstruction_of_parseParameters hkind hcolon' hlist
  rw [htext] at hread
  exact ⟨_, name.span, htokens', hread⟩

/-! ## Interpreters that do not fold -/

namespace Interpreter

variable {σ τ : Type} {i : Interpreter σ τ}

/-- The interpreter does not fold, and what it keeps is what it would build. -/
structure Unfolding (i : Interpreter σ τ) : Prop where
  unfolded : i.optimizeOnBuild = false
  current : i.Current

/-- Without folding, building a text has one and the same outcome in all contexts, whether there is
room for a value in them or not. -/
theorem exists_outcome_of_build (h : i.optimizeOnBuild = false) (text : String) :
    ∃ outcome, ∀ r : Runtime σ τ, (i.build text).run r = (outcome, r) := by
  have hbuild : ∃ outcome : Except Error (Instruction σ τ),
      i.build text = CallM.ofOutcome outcome := by
    unfold build finish
    rw [h]
    generalize (do
      let parsed ← (parseInstruction (← tokens text)).mapError .parse
      let f ← i.function parsed.function
      let modifiers ← i.modifiersOf parsed.modifiers
      return (f, parsed, modifiers) : Except Error _) = parts
    cases parts with
    | error e => exact ⟨.error e, rfl⟩
    | ok parts => exact ⟨.ok ⟨text, parts.1, parts.2.1.parameters, parts.2.2, false⟩, rfl⟩
  rcases hbuild with ⟨outcome, hbuild⟩
  refine ⟨outcome, fun r => ?_⟩
  rw [hbuild]
  rfl

namespace Unfolding

/-- What is kept is built in every context. -/
theorem build_of_kept (h : i.Unfolding) {text : String} {kept : Instruction σ τ}
    (hfind : i.cache.find? text = some kept) (r : Runtime σ τ) :
    (i.build text).run r = (.ok kept, r) := by
  rcases exists_outcome_of_build h.unfolded text with ⟨outcome, hbuild⟩
  -- There is a context with room, and what is built there is built everywhere.
  let roomy : Runtime σ τ := { r with context.evaluator.machine.stack := .ofSize ⟨4, 1⟩ }
  have hkept := h.current text kept hfind roomy Stack.hasRoom_ofSize
  rw [hbuild] at hkept
  rw [hbuild, (Prod.mk.inj hkept).1]

/-- An interpreter that does not fold on build begins without folded instructions, and never has
any. -/
theorem ofConfig {config : Config} (h : config.optimizeOnBuild = false) :
    (ofConfig config : Interpreter σ τ).Unfolding :=
  ⟨h, current_of_empty fun _ => rfl⟩

/-- Nothing is kept that folding could have changed. -/
theorem of_empty (h : i.optimizeOnBuild = false) (hempty : ∀ text, i.cache.find? text = none) :
    i.Unfolding :=
  ⟨h, current_of_empty hempty⟩

theorem withOutput (h : i.Unfolding) (output : Output) : Unfolding { i with output } :=
  ⟨h.unfolded, h.current.of_sameNames ⟨rfl, rfl, rfl⟩ rfl⟩

/-- The instruction of a text is what building the text gives, and only the cache changes. -/
theorem run_cachedInstruction (h : i.Unfolding) (c : Context σ τ) (text : String) :
    ∃ cache, (Session.cachedInstruction text).run ⟨i, c⟩
        = (((i.build text).run ⟨c, i.output⟩).1, ⟨{ i with cache }, c⟩) ∧
      Unfolding { i with cache } := by
  rcases exists_outcome_of_build h.unfolded text with ⟨outcome, hbuild⟩
  rw [hbuild]
  cases hfind : i.cache.find? text with
  | some kept =>
    have hkept := h.build_of_kept hfind ⟨c, i.output⟩
    rw [hbuild] at hkept
    cases hkept
    exact ⟨i.cache, Session.run_cachedInstruction_of_some hfind, h⟩
  | none =>
    have hrun : (Session.cachedInstruction text).run ⟨i, c⟩ = _ :=
      Session.run_cachedInstruction_of_none hfind
    rw [Session.run_call (hbuild _)] at hrun
    cases outcome with
    | error e => exact ⟨i.cache, hrun, h⟩
    | ok instruction =>
      obtain rfl : instruction.source = text := source_of_build (hbuild ⟨c, i.output⟩)
      exact ⟨i.cache.insert instruction.source instruction, hrun,
        ⟨h.unfolded, h.current.insert fun r _ => hbuild r⟩⟩

/-- What is done with the instruction of a text leaves the interpreter as it is but for the cache
and the text that is printed. -/
theorem after_instruction {α : Type} (h : i.Unfolding) (c : Context σ τ) (text : String)
    (next : Instruction σ τ → CallM σ τ α) :
    let s := ((do Session.call (next (← Session.cachedInstruction text)) : SessionM σ τ α).run
      ⟨i, c⟩).2
    i.SameNames s.interpreter ∧ s.interpreter.Unfolding := by
  rcases h.run_cachedInstruction c text with ⟨cache, hrun, hcache⟩
  rw [run_bind, hrun]
  rcases ((i.build text).run ⟨c, i.output⟩).1 with e | instruction
  · exact ⟨⟨rfl, rfl, rfl⟩, hcache⟩
  · exact ⟨⟨rfl, rfl, rfl⟩, hcache.withOutput _⟩

end Unfolding

end Interpreter

/-- An interpreter that does not fold keeps what it would build, whatever it is asked to do. -/
theorem Workspace.unfolding_step {ι κ σ τ : Type} [DecidableEq ι] [DecidableEq κ]
    [Observer σ τ] {w : Workspace ι κ σ τ}
    (h : w.interpreter.Unfolding) (command : Command κ σ τ) :
    (w.step command).2.interpreter.Unfolding := by
  cases command with
  | registerFunction f => exact .of_empty h.unfolded fun _ => rfl
  | unregisterFunction name =>
    show (w.interpreter.unregisterFunction name).2.Unfolding
    unfold Interpreter.unregisterFunction
    split
    · exact .of_empty h.unfolded fun _ => rfl
    · exact h
  | registerModifier m => exact .of_empty h.unfolded fun _ => rfl
  | unregisterModifier name =>
    show (w.interpreter.unregisterModifier name).2.Unfolding
    unfold Interpreter.unregisterModifier
    split
    · exact .of_empty h.unfolded fun _ => rfl
    · exact h
  | clearCache => exact .of_empty h.unfolded fun _ => rfl
  | execute k text => exact (h.after_instruction (w.context k) text Instruction.execute).2
  | executeAs k t text => exact (h.after_instruction (w.context k) text (·.executeAs t)).2
  | change k f => exact h

/-- Whatever requests it serves, such an interpreter keeps no folded instruction. -/
theorem Workspace.unfolding_run {ι κ σ τ : Type} [DecidableEq ι] [DecidableEq κ]
    [Observer σ τ] {w : Workspace ι κ σ τ}
    (h : w.interpreter.Unfolding) (commands : List (Command κ σ τ)) :
    (w.run commands).2.interpreter.Unfolding := by
  induction commands generalizing w with
  | nil => exact h
  | cons command commands ih => exact ih (w.unfolding_step h command)

/-! ## Steps that differ in the notes alone -/

variable {σ τ α β : Type}

/-- The same but for the notes. -/
structure Runtime.SameEvaluator (r r' : Runtime σ τ) : Prop where
  evaluator : r.context.evaluator = r'.context.evaluator
  output : r.output = r'.output

theorem Runtime.SameEvaluator.trans {r r' r'' : Runtime σ τ} (h : r.SameEvaluator r')
    (h' : r'.SameEvaluator r'') : r.SameEvaluator r'' :=
  ⟨h.evaluator.trans h'.evaluator, h.output.trans h'.output⟩

/-- When the host is told of an instruction, it writes notes and does nothing else. -/
structure Observer.WritesNotes (σ τ : Type) [Observer σ τ] : Prop where
  begun : ∀ (i : Instruction σ τ) r, ((Observer.begun i).run r).2.SameEvaluator r
  completed : ∀ (i : Instruction σ τ) info r, ((Observer.completed i info).run r).2.SameEvaluator r

/-- A host that keeps a journal writes nothing but its notes. -/
theorem Journal.writesNotes : Observer.WritesNotes σ Notes where
  begun _ _ := ⟨rfl, rfl⟩
  completed _ _ _ := ⟨rfl, rfl⟩

namespace CallM

/-- The two steps have the same outcome, whatever the notes are, and leave the same behind but for
the notes. -/
def Alike (act act' : CallM σ τ α) : Prop :=
  ∀ r r' : Runtime σ τ, r.SameEvaluator r' →
    (act.run r).1 = (act'.run r').1 ∧ (act.run r).2.SameEvaluator (act'.run r').2

namespace Alike

theorem pure (a : α) : Alike (pure a : CallM σ τ α) (pure a) :=
  fun _ _ h => ⟨rfl, h⟩

theorem throw (e : Error) : Alike (throw e : CallM σ τ α) (throw e) :=
  fun _ _ h => ⟨rfl, h⟩

theorem throw_bind (e : Error) (next next' : β → CallM σ τ α) :
    Alike (MonadExcept.throw e >>= next) (MonadExcept.throw e >>= next') :=
  fun _ _ h => ⟨rfl, h⟩

/-- Two runs that see the same evaluator go on alike. -/
theorem bind {act act' : CallM σ τ α} {next next' : α → CallM σ τ β} (hact : Alike act act')
    (hnext : ∀ a, Alike (next a) (next' a)) : Alike (act >>= next) (act' >>= next') := by
  intro r r' h
  rcases hact r r' h with ⟨houtcome, hsame⟩
  rw [run_bind, run_bind]
  rcases hr : act.run r with ⟨outcome, q⟩
  rcases hr' : act'.run r' with ⟨outcome', q'⟩
  rw [hr, hr'] at houtcome hsame
  obtain rfl : outcome = outcome' := houtcome
  cases outcome with
  | error e => exact ⟨rfl, hsame⟩
  | ok a => exact hnext a q q' hsame

/-- What the host writes down makes no difference. -/
theorem told_bind {told : StateM (Runtime σ τ) Unit} {next : Unit → CallM σ τ α}
    {act : CallM σ τ α} (htold : ∀ r, (told.run r).2.SameEvaluator r) (h : Alike (next ()) act) :
    Alike (ExceptT.lift told >>= next) act := by
  intro r r' hsame
  have hrun : (ExceptT.lift told : CallM σ τ Unit).run r = (.ok (), (told.run r).2) := rfl
  rw [run_bind, hrun]
  exact h _ r' ((htold r).trans hsame)

/-- Evaluation sees the evaluator alone. -/
theorem evaluate (act : EvalM σ α) : Alike (evaluate act : CallM σ τ α) (CallM.evaluate act) := by
  intro r r' h
  rcases hp : act.perform r.context.evaluator.scope r.context.evaluator.machine with ⟨outcome, m⟩
  have hp' := hp
  rw [h.evaluator] at hp'
  rw [run_evaluate hp, run_evaluate hp']
  refine ⟨rfl, ⟨?_, h.output⟩⟩
  show { r.context.evaluator with machine := m } = { r'.context.evaluator with machine := m }
  rw [h.evaluator]

theorem host (act : ExceptT Error (StateM (World σ)) α) :
    Alike (host act : CallM σ τ α) (CallM.host act) := by
  intro r r' h
  have hrun : ∀ q : Runtime σ τ, (CallM.host act).run q
      = ((act.run q.context.evaluator.machine.world).1, { q with
          context.evaluator.machine.world := (act.run q.context.evaluator.machine.world).2 }) :=
    fun _ => rfl
  rcases r with ⟨⟨ev, notes⟩, output⟩
  rcases r' with ⟨⟨ev', notes'⟩, output'⟩
  obtain rfl : ev = ev' := h.evaluator
  rw [hrun, hrun]
  exact ⟨rfl, ⟨rfl, h.output⟩⟩

/-- Giving the stack back looks at the stacks, which are the same. -/
theorem restoring {act act' : CallM σ τ α} (hact : Alike act act') :
    Alike (restoring act) (CallM.restoring act') := by
  intro r r' h
  have hstart : r.context.stack = r'.context.stack := congrArg (·.machine.stack) h.evaluator
  rcases hact r r' h with ⟨houtcome, hsame⟩
  rw [run_restoring, run_restoring]
  rcases hr : act.run r with ⟨outcome, q⟩
  rcases hr' : act'.run r' with ⟨outcome', q'⟩
  rw [hr, hr'] at houtcome hsame
  obtain rfl : outcome = outcome' := houtcome
  cases outcome with
  | ok a => exact ⟨rfl, hsame⟩
  | error e =>
    have hend : q.context.evaluator = q'.context.evaluator := hsame.evaluator
    refine ⟨rfl, ⟨?_, hsame.output⟩⟩
    simp only [Context.stack] at hstart ⊢
    rw [hend, hstart]

/-- A result is popped alike in both runs. -/
theorem popAs (t : NativeType σ) (info : ValueInfo) :
    Alike (popAs t info : CallM σ τ t.Carrier) (CallM.popAs t info) := by
  unfold CallM.popAs
  dsimp only
  split
  · exact (Alike.evaluate _).bind fun _ => .throw_bind _ _ _
  · refine (Alike.evaluate _).bind fun v => (Alike.host _).bind fun a? => ?_
    cases a? with
    | some a => exact .pure a
    | none => exact .throw _

end Alike

/-- It makes no difference whether what follows is under the mark too, if it leaves the stack as it
was at the mark when it fails. -/
theorem run_restoring_bind {act : CallM σ τ α} {next : α → CallM σ τ β} {post : α → Stack → Prop}
    {last : β → Stack → Prop} {r : Runtime σ τ}
    (hact : Ends r.context.stack act post r.context.stack.Under)
    (hnext : ∀ a s, post a s → Ends s (next a) last (· = r.context.stack)) :
    (restoring (act >>= next)).run r = (restoring act >>= next).run r := by
  rw [run_restoring, run_bind, run_bind, run_restoring]
  have houtcome := hact.outcome r rfl
  rcases hr : act.run r with ⟨e | a, q⟩
  · rfl
  · rw [hr] at houtcome
    have hlast := (hnext a _ houtcome).outcome q rfl
    dsimp only
    rcases hq : (next a).run q with ⟨e | b, q'⟩
    · rw [hq] at hlast
      have hstack : q'.context.stack = r.context.stack := hlast
      have hreset : q'.context.stack.resetTo r.context.stack.mark = q'.context.stack := by
        rw [hstack]
        exact (Stack.Under.refl _).resetTo_mark
      dsimp only
      rw [hreset]
      rfl
    · rfl

end CallM

/-! ## Both ways -/

open CallM EvalM

section

variable [Observer σ τ] (hobserver : Observer.WritesNotes σ τ)
include hobserver

/-- The instruction evaluates its argument, and the host takes note of it. -/
theorem alike_evaluator (source : String) (n : Node) :
    Alike (Instruction.run ⟨source, .evaluator, [n], [], false⟩ : CallM σ τ ValueInfo)
      (evaluate (eval n)) := by
  have hpure : (evaluate (eval n) : CallM σ τ ValueInfo) = evaluate (eval n) >>= pure := by
    rw [bind_pure]
  rw [hpure]
  refine Alike.told_bind (hobserver.begun _) ?_
  refine (Alike.evaluate (eval n)).bind fun info => ?_
  show Alike (ExceptT.lift (Observer.completed _ info) >>= fun _ => pure info) (pure info)
  exact Alike.told_bind (hobserver.completed _ info) (Alike.pure info)

/-- The result of the instruction is that of the expression, and so is what becomes of the
evaluator: a result that is not of the type is popped, whether it is under the mark or not. -/
theorem alike_executeAs (source : String) (n : Node) (t : NativeType σ) (r : Runtime σ τ) :
    let act : CallM σ τ t.Carrier := Instruction.executeAs ⟨source, .evaluator, [n], [], false⟩ t
    let act' : CallM σ τ t.Carrier := restoring do CallM.popAs t (← evaluate (eval n))
    (act.run r).1 = (act'.run r).1 ∧ (act.run r).2.SameEvaluator (act'.run r).2 := by
  intro act act'
  have heval : CallM.Ends r.context.stack (evaluate (eval n) : CallM σ τ ValueInfo)
      (Leaves r.context.stack) r.context.stack.Under :=
    .evaluate (fun _ => ends_eval n _) (.refl _)
  have hmark : act'.run r = (restoring (evaluate (eval n)) >>= CallM.popAs t).run r :=
    run_restoring_bind heval fun info s hleft => ends_popAs t hleft rfl
  have halike : Alike act (restoring (evaluate (eval n)) >>= CallM.popAs t) :=
    (alike_evaluator hobserver source n).restoring.bind (.popAs t)
  rw [hmark]
  exact halike r r ⟨rfl, rfl⟩

end

/-- The instruction of a text, in full. -/
theorem build_evaluateText {i : Interpreter σ τ} (hunfolded : i.optimizeOnBuild = false)
    (hbuiltin : i.functions.find? "Evaluate" = some .evaluator) {text : String}
    {tokens : List Token} {n : Node} (htokens : tokenize text = .ok tokens)
    (hparse : parseSingleExpression tokens = .ok n) (r : Runtime σ τ) :
    (i.build (evaluateText text)).run r
      = (.ok ⟨evaluateText text, .evaluator, [n], [], false⟩, r) := by
  rcases parseInstruction_evaluate htokens hparse with ⟨tokens', span, htokens', hparse'⟩
  have hf : i.function "Evaluate" = .ok .evaluator := by
    rw [Interpreter.function, hbuiltin]
  unfold Interpreter.build Interpreter.finish Interpreter.tokens
  rw [htokens', hunfolded]
  simp only [Except.mapError, bind, Except.bind, hparse', hf]
  rfl

/-- An expression evaluates alike on its own and as the argument of `Evaluate`: with the same value
as a native type or the same error, the same calls of the host in the same order, and the same
stack.

The evaluator that is left holds the stack and the state of the host with all that the host may have
written down of what it was asked.  The interpreter folds nothing, knows `Evaluate` as the function
that comes with it, and may have been asked to do whatever else before, so that the instruction may
be a kept one.  A comma may follow the expression.  When the host is told of the instruction, it may
write notes, as it does with a journal. -/
theorem executeAs_eq_evaluateExpression {ι κ : Type} [DecidableEq ι] [DecidableEq κ]
    [Observer σ τ] (hobserver : Observer.WritesNotes σ τ) (config : Config)
    (hconfig : config.optimizeOnBuild = false) (hostOf : κ → ι) (worlds : ι → World σ)
    (contexts : κ → Context σ τ) (commands : List (Command κ σ τ)) (i : Interpreter σ τ)
    (hi : (Workspace.run ⟨.ofConfig config, hostOf, worlds, contexts⟩ commands).2.interpreter = i)
    (hbuiltin : i.functions.find? "Evaluate" = some .evaluator) (text : String)
    (tokens : List Token) (n : Node) (htokens : tokenize text = .ok tokens)
    (hparse : parseSingleExpression tokens = .ok n) (c : Context σ τ) (t : NativeType σ) :
    let viaInstruction := (Session.executeAs t ("Evaluate: " ++ text)).run ⟨i, c⟩
    let direct := (Session.evaluateExpression t text).run ⟨i, c⟩
    viaInstruction.1 = direct.1 ∧
      viaInstruction.2.context.evaluator = direct.2.context.evaluator ∧
      viaInstruction.2.interpreter.output = direct.2.interpreter.output ∧
      Observer.WritesNotes σ Notes := by
  intro viaInstruction direct
  have hunfolding : i.Unfolding := by
    rw [← hi]
    exact Workspace.unfolding_run (.ofConfig hconfig) commands
  let instruction : Instruction σ τ := ⟨evaluateText text, .evaluator, [n], [], false⟩
  have hbuild := build_evaluateText hunfolding.unfolded hbuiltin htokens hparse ⟨c, i.output⟩
  -- The instruction, kept or built, runs on the context as the expression does on its own.
  rcases hunfolding.run_cachedInstruction c (evaluateText text) with ⟨cache, hcached, -⟩
  rw [hbuild] at hcached
  have hvia : viaInstruction
      = (Session.call (instruction.executeAs t)).run ⟨{ i with cache }, c⟩ := by
    show (Session.executeAs t (evaluateText text)).run ⟨i, c⟩ = _
    rw [Session.executeAs, run_bind, hcached]
  have hdirect : direct = (Session.call (restoring do
      CallM.popAs t (← evaluate (eval n)))).run ⟨i, c⟩ := by
    show (Session.evaluateExpression t text).run ⟨i, c⟩ = _
    have hread : (do (parseSingleExpression (← Interpreter.tokens text)).mapError .parse
        : Except Error Node) = .ok n := by
      rw [Interpreter.tokens, htokens]
      show (parseSingleExpression tokens).mapError Error.parse = .ok n
      rw [hparse]
      rfl
    rw [Session.evaluateExpression, hread, Session.call_bind]
    rfl
  rw [hvia, hdirect]
  rcases alike_executeAs hobserver (evaluateText text) n t ⟨c, i.output⟩ with ⟨houtcome, hsame⟩
  exact ⟨houtcome, hsame.evaluator, hsame.output, Journal.writesNotes⟩

/-- The value of `x + 2`, which is no truth value, is dropped both ways after the host was asked for
`x`; the instruction was kept when it was run before. -/
theorem executeAs_eq_evaluateExpression_kept :
    let scope : Scope (List String) :=
      { objects := {}
        selectors := [(⟨0⟩, .readOnly fun _ name => fun w =>
          (some (.int 1), { w with state := w.state ++ [name] }))]
        initializers := .empty }
    let world : World (List String) := ⟨[], 0⟩
    let c : Context (List String) Notes := ⟨⟨scope, 1, .empty, ⟨.ofSize ⟨8, 1⟩, world⟩⟩, none⟩
    let config : Config := { optimizeOnBuild := false }
    let commands : List (Command Unit (List String) Notes) :=
      [.executeAs () .int "Evaluate: x + 2"]
    let i := (Workspace.run ⟨.ofConfig config, fun _ => (), fun _ => world, fun _ => c⟩
      commands).2.interpreter
    let tokens : List Token := [⟨.identifier, some "x", ⟨0, 1⟩⟩, ⟨.add, none, ⟨2, 3⟩⟩,
      ⟨.int, some "2", ⟨4, 5⟩⟩]
    let viaInstruction := (Session.executeAs .bool ("Evaluate: " ++ "x + 2")).run ⟨i, c⟩
    let direct := (Session.evaluateExpression .bool "x + 2").run ⟨i, c⟩
    Observer.WritesNotes (List String) Notes ∧
      config.optimizeOnBuild = false ∧ i.functions.find? "Evaluate" = some .evaluator ∧
      tokenize "x + 2" = .ok tokens ∧
      parseSingleExpression tokens = .ok (.apply .add [.ident "x", .int 2]) ∧
      i.cache.size = 1 ∧ direct.1 = .error (.binding (.returnTypeMismatch "bool" .int)) ∧
      direct.2.context.evaluator.machine.world.state = ["x"] ∧
      viaInstruction.1 = direct.1 ∧
      viaInstruction.2.context.evaluator = direct.2.context.evaluator ∧
      viaInstruction.2.interpreter.output = direct.2.interpreter.output ∧
      Observer.WritesNotes (List String) Notes := by
  intro scope world c config commands i tokens viaInstruction direct
  have hfresh : (Interpreter.ofConfig config : Interpreter (List String) Notes).Unfolding :=
    .ofConfig rfl
  have hnames := (hfresh.after_instruction c "Evaluate: x + 2" (·.executeAs .int)).1
  have hbuiltin : i.functions.find? "Evaluate" = some .evaluator :=
    (congrArg (·.find? "Evaluate") hnames.functions.symm).trans rfl
  have htokens : tokenize "x + 2" = .ok tokens := by decide +kernel
  have hparse : parseSingleExpression tokens = .ok (.apply .add [.ident "x", .int 2]) :=
    parseSingleExpression_of_some rfl
  have hkept : i.cache.size = 1 := by decide +kernel
  have hmismatch : direct.1 = .error (.binding (.returnTypeMismatch "bool" .int)) := by
    decide +kernel
  have hasked : direct.2.context.evaluator.machine.world.state = ["x"] := by decide +kernel
  exact ⟨Journal.writesNotes, rfl, hbuiltin, htokens, hparse, hkept, hmismatch, hasked,
    executeAs_eq_evaluateExpression Journal.writesNotes config rfl (fun _ => ()) (fun _ => world)
      (fun _ => c) commands i rfl hbuiltin "x + 2" tokens _ htokens hparse c .bool⟩

end Edict
